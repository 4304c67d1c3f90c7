import Ploykit.Authorization.Principals

/-!
# The hash of a catalog

The hash is of the normal form, in which a field that is left out is the explicit
default and names are sorted. The evaluation reads the catalog as it is given. A
recent authentication that is left out is challenged, where the explicit `none`
passes, and the rules of a stage are asked in the order they are given in.
-/

namespace Ploykit.Authorization

open Lib.Checks

/-! ## Operations of the same normal form -/

section

variable {op op' : Operation} {names names' : List String}

theorem normalizeNames_perm : (normalizeNames names).Perm names := List.perm_insertionSort _ names

theorem perm_of_normalizeNames (h : normalizeNames names = normalizeNames names') : names.Perm names' :=
  normalizeNames_perm.symm.trans (h ▸ normalizeNames_perm)

/-- A field in normal form, by which the default and the field left out are the same. -/
theorem default_eq_iff {α : Type} [DecidableEq α] {empty none a b c : α}
    (h : (if a = empty then none else a) = if b = empty then none else b) (hc : c ≠ none) (hc' : c ≠ empty) :
    a = c ↔ b = c := by
  constructor
  · rintro rfl
    rw [if_neg hc'] at h
    split at h
    · exact absurd h hc
    · exact h.symm
  · rintro rfl
    rw [if_neg hc'] at h
    split at h
    · exact absurd h.symm hc
    · exact h

/-- What two operations of the same normal form have in common. -/
structure Operation.Alike (op op' : Operation) : Prop where
  operationID : op.operationID = op'.operationID
  authMethod : op.authMethod = op'.authMethod
  scope : op.scope = op'.scope
  workspaceRoles : op.allowedWorkspaceRoles.Perm op'.allowedWorkspaceRoles
  projectRoles : op.allowedProjectRoles.Perm op'.allowedProjectRoles
  aal1 : op.assurance = .aal1 ↔ op'.assurance = .aal1
  aal2 : op.assurance = .aal2 ↔ op'.assurance = .aal2
  recentAuth : op.recentAuth = op'.recentAuth ∨ op.recentAuth = .empty ∧ op'.recentAuth = .none ∨
    op.recentAuth = .none ∧ op'.recentAuth = .empty
  window : op.recentAuthWindowSeconds = op'.recentAuthWindowSeconds
  idempotency : op.idempotency = .required ↔ op'.idempotency = .required
  rules : op.rules.Perm op'.rules

theorem Operation.Alike.of_normalized (h : op.normalized = op'.normalized) : op.Alike op' := by
  simp only [Operation.normalized, Operation.mk.injEq] at h
  obtain ⟨hid, hmethod, hscope, hws, hpj, hassurance, hrecent, hwindow, hidem, hrules⟩ := h
  refine ⟨hid, hmethod, hscope, perm_of_normalizeNames hws, perm_of_normalizeNames hpj,
    default_eq_iff hassurance (by decide) (by decide), default_eq_iff hassurance (by decide) (by decide), ?_, hwindow,
    default_eq_iff hidem (by decide) (by decide), perm_of_normalizeNames hrules⟩
  split at hrecent
  · rename_i hempty
    split at hrecent
    · rename_i hempty'
      exact .inl (hempty.trans hempty'.symm)
    · exact .inr (.inl ⟨hempty, hrecent.symm⟩)
  · split at hrecent
    · rename_i hempty'
      exact .inr (.inr ⟨hrecent, hempty'⟩)
    · exact .inl hrecent

end

/-! ## The first refusal -/

section

variable {l : List Stage} {f g : Stage → Option Decision}

/-- Every answer of the stages is a refusal of its stage. -/
def Refusing (l : List Stage) (f : Stage → Option Decision) : Prop :=
  ∀ st ∈ l, ∀ d, f st = some d → d.Refuses st

theorem first_of_refusing (hf : Refusing l f) :
    (l.findSome? f).getD allow = allow ∨ ∃ st ∈ l, ((l.findSome? f).getD allow).Refuses st := by
  cases hfirst : l.findSome? f with
  | none => exact .inl rfl
  | some d =>
    obtain ⟨st, hst, hd⟩ := List.exists_of_findSome?_eq_some hfirst
    exact .inr ⟨st, hst, hf st hst d hd⟩

/-- The answer of a stage is not the first refusal of other stages. -/
theorem first_ne {st : Stage} {d : Decision} (hd : d.Refuses st) (hst : st ∉ l) (hf : Refusing l f) :
    d ≠ (l.findSome? f).getD allow := by
  rintro rfl
  rcases first_of_refusing hf with hallow | ⟨st', hst', hrefuses⟩
  · exact hd.outcome (congrArg Decision.outcome hallow)
  · exact hst ((hd.stage.symm.trans hrefuses.stage) ▸ hst')

/-- Two runs of the stages decide the same exactly if, stage by stage, they answer the
same for as long as both pass. -/
theorem first_eq_iff (hl : l.Nodup) (hf : Refusing l f) (hg : Refusing l g) :
    (l.findSome? f).getD allow = (l.findSome? g).getD allow ↔
      ∀ before st after, l = before ++ st :: after → (∀ st' ∈ before, f st' = none ∧ g st' = none) → f st = g st := by
  induction l with
  | nil => exact ⟨fun _ before st after h => by simp at h, fun _ => rfl⟩
  | cons a l ih =>
    obtain ⟨ha, hl⟩ := List.nodup_cons.1 hl
    have hf' : Refusing l f := fun st hst => hf st (.tail a hst)
    have hg' : Refusing l g := fun st hst => hg st (.tail a hst)
    -- past a stage that both pass
    have hpast : f a = none → g a = none → ((∀ before st after, a :: l = before ++ st :: after →
        (∀ st' ∈ before, f st' = none ∧ g st' = none) → f st = g st) ↔
        ∀ before st after, l = before ++ st :: after → (∀ st' ∈ before, f st' = none ∧ g st' = none) →
          f st = g st) := by
      intro hfa hga
      constructor
      · intro h before st after hsplit hbefore
        exact h (a :: before) st after (congrArg (a :: ·) hsplit) (List.forall_mem_cons.2 ⟨⟨hfa, hga⟩, hbefore⟩)
      · intro h before st after hsplit hbefore
        cases before with
        | nil =>
          obtain ⟨rfl, rfl⟩ := List.cons.inj hsplit
          exact hfa.trans hga.symm
        | cons b before =>
          obtain ⟨rfl, rfl⟩ := List.cons.inj hsplit
          exact h before st after rfl fun st' h => hbefore st' (.tail _ h)
    -- the first stage answers, on one side or on both
    have hhere : f a ≠ g a → ¬ ∀ before st after, a :: l = before ++ st :: after →
        (∀ st' ∈ before, f st' = none ∧ g st' = none) → f st = g st := fun hne h =>
      hne (h [] a l rfl fun st' hst' => (List.not_mem_nil hst').elim)
    rw [List.findSome?_cons, List.findSome?_cons]
    cases hfa : f a with
    | none =>
      cases hga : g a with
      | none => rw [hpast hfa hga, ← ih hl hf' hg']
      | some d =>
        have hne := first_ne (hg a (.head l) d hga) ha hf'
        exact ⟨fun h => absurd h.symm hne, fun h => absurd h (hhere (by simp [hfa, hga]))⟩
    | some d =>
      cases hga : g a with
      | none =>
        have hne := first_ne (hf a (.head l) d hfa) ha hg'
        exact ⟨fun h => absurd h hne, fun h => absurd h (hhere (by simp [hfa, hga]))⟩
      | some d' =>
        constructor
        · rintro h before st after hsplit hbefore
          cases before with
          | nil =>
            obtain ⟨rfl, rfl⟩ := List.cons.inj hsplit
            rw [hfa, hga]
            exact congrArg some h
          | cons b before =>
            obtain ⟨rfl, rfl⟩ := List.cons.inj hsplit
            have hnone := (hbefore _ (.head before)).1
            cases hfa.symm.trans hnone
        · intro h
          by_contra hne
          refine hhere ?_ h
          rw [hfa, hga]
          exact fun heq => hne (Option.some.inj heq)

end

/-! ## Requests of the same form -/

section

variable {R V : Type} [Rule R V] {req : Request R V} {op' : Operation} {rules' : List (Option R)} {st : Stage}
  {scope : Scope}

/-- The request as another catalog has it. -/
abbrev Request.recast (req : Request R V) (op' : Operation) (rules' : List (Option R)) : Request R V :=
  { req with operation := op', rules := rules' }

omit [Rule R V] in
theorem intersects_perm {actual allowed allowed' : List String} (h : allowed.Perm allowed') :
    intersects actual allowed = intersects actual allowed' := h.any_eq

/-- The checks after the authentication read the operation by what its form says. -/
theorem ownCheck_recast (hop : req.operation.Alike op') (hst : st ∈ [Stage.scope, .membership, .role, .policy, .input]) :
    ownCheck (req.recast op' rules') scope st = ownCheck req scope st := by
  simp only [List.mem_cons, List.not_mem_nil, or_false] at hst
  unfold ownCheck evaluateStage
  rcases hst with rfl | rfl | rfl | rfl | rfl
  · simp only [evaluateScope, ← hop.scope]
    rfl
  · simp only [evaluateMembership, ← hop.scope, ← hop.authMethod]
    rfl
  · simp only [evaluateRole, ← hop.scope, ← hop.authMethod, ← intersects_perm hop.workspaceRoles,
      ← intersects_perm hop.projectRoles]
    rfl
  · rfl
  · simp only [evaluateInput, ← hop.idempotency]
    rfl

/-! ### The recent authentication -/

def Operation.withoutRecentAuth (op : Operation) : Operation := { op with recentAuth := .none }

/-- What the authentication asks before it comes to the recent authentication. -/
def beforeRecentAuth (req : Request R V) : Option Decision :=
  evaluateAuthentication (req.recast req.operation.withoutRecentAuth [])

def recentAuthCheck (req : Request R V) : Option Decision :=
  if req.operation.authMethod = .unauthenticated then none else builtinRecentAuthRule req

def recentAuthChallenge (op : Operation) : Decision := { newChallenge op with reasonCode := reasonRecentAuthRequired }

omit [Rule R V] in
/-- What the assurance rule answers depends on what the form says only. -/
theorem builtinAssuranceRule_recast {op op' : Operation} (hid : op.operationID = op'.operationID)
    (haal2 : op.assurance = .aal2 ↔ op'.assurance = .aal2)
    (hwindow : op.recentAuthWindowSeconds = op'.recentAuthWindowSeconds) {rules : List (Option R)} :
    builtinAssuranceRule (req.recast op rules) = builtinAssuranceRule (req.recast op' rules') := by
  have hchallenge : op.assurance = .aal2 → newChallenge op = newChallenge op' := by
    intro h
    have h' := haal2.1 h
    simp [newChallenge, h, h', hid, Operation.recentAuthWindow, hwindow]
  unfold builtinAssuranceRule
  by_cases h : op.assurance = .aal2
  · simp only [hchallenge h, h, haal2.1 h]
  · have h' : op'.assurance ≠ .aal2 := fun h' => h (haal2.2 h')
    rw [if_pos (.inl h), if_pos (.inl h')]

theorem ownCheck_authentication :
    ownCheck req scope .authentication = (beforeRecentAuth req).or (recentAuthCheck req) := by
  unfold ownCheck evaluateStage beforeRecentAuth recentAuthCheck evaluateAuthentication
  by_cases hmethod : req.operation.authMethod = .unauthenticated
  · have hmethod' : req.operation.withoutRecentAuth.authMethod = .unauthenticated := hmethod
    simp only [hmethod, hmethod', if_true, Option.or_none]
  have hmethod' : req.operation.withoutRecentAuth.authMethod ≠ .unauthenticated := hmethod
  rw [if_neg hmethod, if_neg hmethod', if_neg hmethod]
  cases hp : req.principal with
  | none => rfl
  | some principal =>
    refine ite_some_or (ite_some_or (ite_some_or ?_))
    have hassurance := @builtinAssuranceRule_recast R V req [] req.operation
      req.operation.withoutRecentAuth rfl .rfl rfl []
    have hrules : runProductRules (req.recast req.operation.withoutRecentAuth []) .authentication = none := rfl
    have hnone : builtinRecentAuthRule (req.recast req.operation.withoutRecentAuth []) = none := rfl
    have hbare : (runBuiltinRules (req.recast req.operation.withoutRecentAuth [])).or
        (runProductRules (req.recast req.operation.withoutRecentAuth []) .authentication) =
          builtinAssuranceRule (req.recast req.operation []) := by
      rw [hrules, Option.or_none, runBuiltinRules, hnone, Option.or_none, hassurance]
    have hown : (runBuiltinRules (req.withRules [])).or (runProductRules (req.withRules []) .authentication) =
        (builtinAssuranceRule (req.recast req.operation [])).or (builtinRecentAuthRule req) := Option.or_none
    rw [hown, hbare]

/-- Up to the recent authentication, requests of the same form are asked the same. -/
theorem beforeRecentAuth_recast (hop : req.operation.Alike op') :
    beforeRecentAuth (req.recast op' rules') = beforeRecentAuth req := by
  have hassurance := @builtinAssuranceRule_recast R V req [] op'.withoutRecentAuth
    req.operation.withoutRecentAuth hop.operationID.symm hop.aal2.symm hop.window.symm []
  have hbuiltin : runBuiltinRules (req.recast op'.withoutRecentAuth []) =
      runBuiltinRules (req.recast req.operation.withoutRecentAuth []) :=
    congrArg (Option.or · none) hassurance
  have hmethod : op'.withoutRecentAuth.authMethod = req.operation.withoutRecentAuth.authMethod :=
    hop.authMethod.symm
  unfold beforeRecentAuth evaluateAuthentication
  simp only [hmethod]
  cases hp : req.principal with
  | none => rfl
  | some principal =>
    simp only [hbuiltin]
    rfl

omit [Rule R V] in
theorem recentAuthChallenge_eq (hop : req.operation.Alike op') (hrecent : req.operation.recentAuth = op'.recentAuth) :
    newChallenge op' = newChallenge req.operation := by
  unfold newChallenge Operation.recentAuthWindow
  simp only [hop.operationID, hop.aal1, hop.window, hrecent]

omit [Rule R V] in
/-- Where the two say the same of it, the recent authentication is asked the same. -/
theorem recentAuthCheck_recast (hop : req.operation.Alike op') (hrecent : req.operation.recentAuth = op'.recentAuth) :
    recentAuthCheck (req.recast op' rules') = recentAuthCheck req := by
  have hwindow : ∀ t, recent (req.recast op' rules') t = recent req t := by
    intro t
    refine decide_eq_decide.2 ?_
    simp only [Operation.recentAuthWindow, hop.window]
  unfold recentAuthCheck builtinRecentAuthRule
  simp only [hop.authMethod, ← hrecent, hwindow, recentAuthChallenge_eq hop hrecent]

omit [Rule R V] in
theorem recentAuthCheck_none (hnone : req.operation.recentAuth = .none) : recentAuthCheck req = none := by
  unfold recentAuthCheck builtinRecentAuthRule
  simp [hnone]

omit [Rule R V] in
/-- A recent authentication that is left out is asked for, and never fresh enough. -/
theorem recentAuthCheck_empty (hempty : req.operation.recentAuth = .empty)
    (hmethod : req.operation.authMethod ≠ .unauthenticated) :
    recentAuthCheck req = some (recentAuthChallenge req.operation) := by
  unfold recentAuthCheck builtinRecentAuthRule recentAuthChallenge
  simp [hempty, hmethod]

/-! ### When the two decide alike -/

/-- The recent authentication that `a` leaves out makes no difference to `b`, which says
`none`: it is not come to, or the rules that `b` asks then make the very challenge. -/
def PassesLeftOut (a b : Request R V) : Prop :=
  a.operation.recentAuth = .empty → b.operation.recentAuth = .none →
    a.operation.authMethod ≠ .unauthenticated → beforeRecentAuth a = none →
    runProductRules b .authentication = some (recentAuthChallenge a.operation)

/-- The product rules of every stage that both requests come to answer them the same. -/
def RulesAlike (a b : Request R V) (scope : Scope) : Prop :=
  ∀ before st after, stages = before ++ st :: after →
    (∀ st' ∈ before, evaluateStage a scope st' = none ∧ evaluateStage b scope st' = none) →
    ownCheck a scope st = none → ownCheck b scope st = none → productCheck a st = productCheck b st

structure DecidedAlike (a b : Request R V) (scope : Scope) : Prop where
  left : PassesLeftOut a b
  right : PassesLeftOut b a
  rules : RulesAlike a b scope

theorem refusing_stages : Refusing stages (evaluateStage req scope) := fun _ hst _ hd => evaluateStage_refuses hst hd

/-- The answers of a stage whose own check is the same. -/
theorem evaluateStage_congr {a b : Request R V} (hst : st ∈ stages) (hown : ownCheck a scope st = ownCheck b scope st)
    (hproduct : ownCheck a scope st = none → ownCheck b scope st = none → productCheck a st = productCheck b st) :
    evaluateStage a scope st = evaluateStage b scope st := by
  rw [evaluateStage_or hst, evaluateStage_or hst, ← hown]
  cases hfirst : ownCheck a scope st with
  | none => rw [hproduct hfirst (hown ▸ hfirst)]
  | some d => rfl

/-- The answers of the authentication where one request leaves the recent authentication out. -/
theorem evaluateStage_leftOut {a b : Request R V} (hbefore : beforeRecentAuth b = beforeRecentAuth a)
    (hmethod : b.operation.authMethod = a.operation.authMethod) (hempty : a.operation.recentAuth = .empty)
    (hnone : b.operation.recentAuth = .none) :
    evaluateStage a scope .authentication = evaluateStage b scope .authentication ↔ PassesLeftOut a b := by
  rw [evaluateStage_or (by decide), evaluateStage_or (by decide), ownCheck_authentication, ownCheck_authentication,
    recentAuthCheck_none hnone, Option.or_none, hbefore]
  by_cases hnamed : a.operation.authMethod = .unauthenticated
  · have hskipped : recentAuthCheck a = none := if_pos hnamed
    have hproduct : productCheck a .authentication = none := if_pos ⟨rfl, hnamed⟩
    have hproduct' : productCheck b .authentication = none := if_pos ⟨rfl, hmethod ▸ hnamed⟩
    rw [hskipped, Option.or_none, hproduct, hproduct']
    exact ⟨fun _ _ _ h => absurd hnamed h, fun _ => rfl⟩
  · have hasked : productCheck b .authentication = runProductRules b .authentication :=
      if_neg fun h => hnamed (hmethod ▸ h.2)
    rw [recentAuthCheck_empty hempty hnamed, hasked]
    unfold PassesLeftOut
    cases hfirst : beforeRecentAuth a with
    | some d => simp
    | none => simp [hempty, hnone, hnamed, eq_comm]

/-- Requests of the same form are decided alike exactly if what is left out makes no
difference and the order of the rules makes none. -/
theorem recast_alike_iff (hop : req.operation.Alike op') :
    (stages.findSome? (evaluateStage req scope)).getD allow =
        (stages.findSome? (evaluateStage (req.recast op' rules') scope)).getD allow ↔
      DecidedAlike req (req.recast op' rules') scope := by
  have hbefore : beforeRecentAuth (req.recast op' rules') = beforeRecentAuth req := beforeRecentAuth_recast hop
  have hmethod : (req.recast op' rules').operation.authMethod = req.operation.authMethod := hop.authMethod.symm
  have hnever : ∀ st' ∈ ([] : List Stage), evaluateStage req scope st' = none ∧
      evaluateStage (req.recast op' rules') scope st' = none := fun _ h => (List.not_mem_nil h).elim
  rw [first_eq_iff (by decide) refusing_stages refusing_stages]
  constructor
  · intro h
    have hfirst := h [] .authentication _ rfl hnever
    refine ⟨fun hempty hnone => ?_, fun hempty hnone => ?_, ?_⟩
    · exact (evaluateStage_leftOut hbefore hmethod hempty hnone).1 hfirst hempty hnone
    · exact (evaluateStage_leftOut hbefore.symm hmethod.symm hempty hnone).1 hfirst.symm hempty hnone
    · intro before st after hsplit hpassed hown hown'
      have hst : st ∈ stages := hsplit ▸ List.mem_append_right before (List.mem_cons_self ..)
      have hsame := h before st after hsplit hpassed
      rw [evaluateStage_or hst, evaluateStage_or hst, hown, hown'] at hsame
      exact hsame
  · intro h before st after hsplit hpassed
    have hst : st ∈ stages := hsplit ▸ List.mem_append_right before (List.mem_cons_self ..)
    have hproduct := h.rules before st after hsplit hpassed
    rcases List.mem_cons.1 hst with rfl | hlater
    · rcases hop.recentAuth with hrecent | ⟨hempty, hnone⟩ | ⟨hnone, hempty⟩
      · refine evaluateStage_congr hst ?_ hproduct
        rw [ownCheck_authentication, ownCheck_authentication, hbefore, recentAuthCheck_recast hop hrecent]
      · exact (evaluateStage_leftOut hbefore hmethod hempty hnone).2 h.left
      · exact ((evaluateStage_leftOut hbefore.symm hmethod.symm hempty hnone).2 h.right).symm
    · exact evaluateStage_congr hst (ownCheck_recast hop hlater).symm hproduct

end

/-! ## Catalogs of the same hash -/

section

variable {R V H : Type} [Rule R V] {reg : Registry R} {c c' : Catalog} {op op' : Operation} {operationID : String}
  {digest : Catalog → H}

theorem validateOperations_nodup {roles : RoleVocab} {i : Nat} {seen : List String} {ops : List Operation}
    (h : validateOperations roles i seen ops = .ok ()) :
    (ops.map Operation.operationID).Nodup ∧ ∀ op ∈ ops, op.operationID ∉ seen := by
  induction ops generalizing i seen with
  | nil => exact ⟨List.nodup_nil, fun op hop => (List.not_mem_nil hop).elim⟩
  | cons op ops ih =>
    simp only [validateOperations, seq_ok, refuseIf_ok] at h
    obtain ⟨-, hnew, -, hrest⟩ := h
    obtain ⟨hnodup, hseen⟩ := ih hrest
    constructor
    · refine List.nodup_cons.2 ⟨fun hmem => ?_, hnodup⟩
      obtain ⟨op', hop', heq⟩ := List.mem_map.1 hmem
      exact hseen op' hop' (heq ▸ List.mem_cons_self ..)
    · intro op' hop'
      cases hop' with
      | head => exact hnew
      | tail _ hmem => exact fun h => hseen op' hmem (.tail _ h)

theorem Catalog.normalized_operations_perm : c.normalized.operations.Perm (c.operations.map Operation.normalized) :=
  List.perm_insertionSort _ _

/-- The names of the operations of a validated catalog are distinct. -/
theorem Catalog.operationIDs_nodup (h : c.validate reg = .ok ()) :
    (c.operations.map Operation.operationID).Nodup := by
  simp only [Catalog.validate, Catalog.validateStructure, seq_ok] at h
  have hnodup := (validateOperations_nodup h.1.2.2.2).1
  have hids : (c.operations.map Operation.normalized).map Operation.operationID =
      c.operations.map Operation.operationID := List.map_map
  rwa [(normalized_operations_perm.map _).nodup_iff, hids] at hnodup

theorem Catalog.operation_iff (h : c.validate reg = .ok ()) :
    c.operation operationID = some op ↔ op ∈ c.operations ∧ op.operationID = operationID := by
  constructor
  · intro hfind
    exact ⟨List.mem_of_find?_eq_some hfind, by simpa using List.find?_some hfind⟩
  · rintro ⟨hmem, rfl⟩
    obtain ⟨found, hfound⟩ : ∃ found, c.operation op.operationID = some found := by
      rw [← Option.isSome_iff_exists]
      exact List.find?_isSome.2 ⟨op, hmem, by simp⟩
    have hid : found.operationID = op.operationID := by simpa using List.find?_some hfound
    have heq := List.inj_on_of_nodup_map (c.operationIDs_nodup h) (List.mem_of_find?_eq_some hfound) hmem hid
    rw [hfound, heq]

/-- Catalogs of one normal form have the same operations, up to their forms. -/
theorem Catalog.operation_alike (h : c.validate reg = .ok ()) (h' : c'.validate reg = .ok ())
    (hnormal : c.normalized = c'.normalized) (hop : c.operation operationID = some op) :
    ∃ op', c'.operation operationID = some op' ∧ op.Alike op' := by
  obtain ⟨hmem, hid⟩ := (c.operation_iff h).1 hop
  have hperm : (c.operations.map Operation.normalized).Perm (c'.operations.map Operation.normalized) :=
    normalized_operations_perm.symm.trans (hnormal ▸ normalized_operations_perm)
  obtain ⟨op', hmem', heq⟩ := List.mem_map.1 (hperm.mem_iff.1 (List.mem_map_of_mem hmem))
  have halike : op.Alike op' := .of_normalized heq.symm
  exact ⟨op', (c'.operation_iff h').2 ⟨hmem', halike.operationID.symm.trans hid⟩, halike⟩

/-- The hash of a validated catalog is there, and with an injective digest tells the normal form. -/
theorem Catalog.normalized_of_hash (hdigest : Function.Injective digest) (h : c.validate reg = .ok ())
    (h' : c'.validate reg = .ok ()) (hhash : c.hash digest = c'.hash digest) : c.normalized = c'.normalized := by
  have hok : ∀ {c : Catalog}, c.validate reg = .ok () → c.hash digest = .ok (digest c.normalized) := by
    intro c h
    simp only [Catalog.validate, seq_ok] at h
    simp only [Catalog.hash, seq_ok]
    exact ⟨h.1, rfl⟩
  rw [hok h, hok h'] at hhash
  exact hdigest (Except.ok.inj hhash)

/-- The rules that a validated catalog names are found. -/
theorem Catalog.resolve_ok (h : c.validate reg = .ok ()) (hop : op ∈ c.operations) :
    reg.resolve op.rules = .ok (op.rules.map reg.rules) := by
  simp only [Catalog.validate, seq_ok, validateRuleClosure, forM_ok, refuseIf_ok] at h
  have hmem : op.normalized ∈ c.normalized.operations :=
    normalized_operations_perm.mem_iff.2 (List.mem_map_of_mem hop)
  have hnames : ∀ name ∈ op.rules, ¬ isBuiltin name ∧ ¬ (reg.rules name).isNone := fun name hname =>
    h.2 op.normalized hmem name (normalizeNames_perm.mem_iff.2 hname)
  generalize op.rules = names at hnames
  induction names with
  | nil => rfl
  | cons name names ih =>
    obtain ⟨⟨hbuiltin, hfound⟩, hrest⟩ := List.forall_mem_cons.1 hnames
    cases hrule : reg.rules name with
    | none => simp [hrule] at hfound
    | some rule =>
      unfold Registry.resolve
      rw [refuseIf, if_neg hbuiltin, hrule, ih hrest, List.map_cons, hrule]
      rfl

/-- The request that an evaluator puts together. -/
def Evaluator.request (e : Evaluator R V) (op : Operation) (principal : Option Principal) (scope : Option Scope)
    (facts : Facts V) (now : Instant) : Request R V :=
  { operation := op, principal, scope, facts, now, rules := op.rules.map e.registry.rules }

theorem Evaluator.authorize_unknown {e : Evaluator R V} (clock : Instant) {principal : Option Principal}
    {scope : Option Scope} {now : Instant} (hop : e.catalog.operation operationID = none) :
    e.authorize clock operationID principal scope now = .ok (deny .policy reasonUnknownOperationOrScope) := by
  unfold authorize
  rw [hop]
  rfl

/-- What is authorized is the evaluation of the request, once the facts are there. -/
theorem Evaluator.authorize_eq {e : Evaluator R V} (clock : Instant) {principal : Option Principal}
    {scope : Option Scope} {now : Instant} (hop : e.catalog.operation operationID = some op) :
    e.authorize clock operationID principal scope now = (do
      let facts ← (e.provider principal scope).mapError (.facts operationID)
      e.registry.validateFacts facts
      return evaluate clock (e.request op principal scope facts now)) := by
  have hmem := ((e.catalog.operation_iff e.valid).1 hop).1
  unfold authorize
  rw [hop]
  simp only [e.catalog.resolve_ok e.valid hmem]
  rfl

/-- A request is decided alike by two evaluators. -/
theorem request_alike_iff {e e' : Evaluator R V} (clock : Instant) {principal : Option Principal}
    {scope : Option Scope} {facts : Facts V} {now : Instant} (hop : op.Alike op') (hname : op.operationID ≠ "") :
    evaluate clock (e.request op principal scope facts now) = evaluate clock (e'.request op' principal scope facts now) ↔
      ∀ sc, scope = some sc → DecidedAlike ((e.request op principal scope facts now).timed clock)
        ((e'.request op' principal scope facts now).timed clock) sc := by
  cases hscope : scope with
  | none =>
    have hleft := @evaluate_unscoped R V _ (e.request op principal none facts now) clock rfl
    have hright := @evaluate_unscoped R V _ (e'.request op' principal none facts now) clock rfl
    exact ⟨fun _ => nofun, fun _ => hleft.trans hright.symm⟩
  | some sc =>
    have hname' : op'.operationID ≠ "" := hop.operationID ▸ hname
    have hleft := @evaluate_eq R V _ (e.request op principal (some sc) facts now) sc clock rfl hname
    have hright := @evaluate_eq R V _ (e'.request op' principal (some sc) facts now) sc clock rfl hname'
    have hrecast : (e'.request op' principal (some sc) facts now).timed clock =
        ((e.request op principal (some sc) facts now).timed clock).recast op' (op'.rules.map e'.registry.rules) := by
      unfold Request.timed Evaluator.request
      split <;> rfl
    have hop' : ((e.request op principal (some sc) facts now).timed clock).operation.Alike op' := by
      rw [Request.timed_operation]
      exact hop
    rw [hleft, hright, hrecast, recast_alike_iff hop']
    constructor
    · rintro h sc' ⟨⟩
      exact h
    · intro h
      exact h sc rfl

variable {e e' : Evaluator R V}

/-- For two catalogs of one hash, with the same registry and the same facts: a request is
answered the same exactly if, once its facts are loaded, what one catalog leaves out
makes no difference and the order in which each names its rules makes none. -/
theorem hash_alike_iff (hdigest : Function.Injective digest) (hhash : e.catalog.hash digest = e'.catalog.hash digest)
    (hregistry : e'.registry = e.registry) (hprovider : e'.provider = e.provider) (clock : Instant)
    (operationID : String) (principal : Option Principal) (scope : Option Scope) (now : Instant) :
    e.authorize clock operationID principal scope now = e'.authorize clock operationID principal scope now ↔
      ∀ op op' facts sc, e.catalog.operation operationID = some op → e'.catalog.operation operationID = some op' →
        e.provider principal scope = .ok facts → e.registry.validateFacts facts = .ok () → scope = some sc →
        DecidedAlike ((e.request op principal scope facts now).timed clock)
          ((e'.request op' principal scope facts now).timed clock) sc := by
  have hvalid' : e'.catalog.validate e.registry = .ok () := hregistry ▸ e'.valid
  have hnormal := Catalog.normalized_of_hash hdigest e.valid hvalid' hhash
  cases hop : e.catalog.operation operationID with
  | none =>
    have hop' : e'.catalog.operation operationID = none := by
      by_contra hsome
      obtain ⟨op', hop'⟩ := Option.ne_none_iff_exists'.1 hsome
      obtain ⟨op, hop'', -⟩ := Catalog.operation_alike hvalid' e.valid hnormal.symm hop'
      cases hop.symm.trans hop''
    rw [e.authorize_unknown clock hop, e'.authorize_unknown clock hop']
    exact ⟨fun _ _ _ _ _ hsome => (nomatch hsome), fun _ => rfl⟩
  | some op =>
    obtain ⟨op', hop', halike⟩ := Catalog.operation_alike e.valid hvalid' hnormal hop
    have hname := (e.catalog.valid e.valid ((e.catalog.operation_iff e.valid).1 hop).1).1
    rw [e.authorize_eq clock hop, e'.authorize_eq clock hop', hop', hregistry, hprovider]
    cases hfacts : e.provider principal scope with
    | error err => exact ⟨fun _ _ _ _ _ _ _ hok => (nomatch hok), fun _ => rfl⟩
    | ok facts =>
      cases hvalidFacts : e.registry.validateFacts facts with
      | error err =>
        constructor
        · rintro - _ _ _ _ - - ⟨⟩ hok
          cases hvalidFacts.symm.trans hok
        · intro
          simp only [mapError_value, bind, Except.bind, hvalidFacts]
      | ok u =>
        have hdecided := @request_alike_iff R V _ op op' e e' clock principal scope facts now halike hname
        have hok : ∀ d d' : Decision, (Except.ok d : Except RegistryError Decision) = .ok d' ↔ d = d' :=
          fun d d' => Except.ok.injEq d d' ▸ .rfl
        simp only [mapError_value, bind, Except.bind, hvalidFacts, pure, Except.pure, hok]
        rw [hdecided]
        constructor
        · rintro h _ _ _ sc ⟨⟩ ⟨⟩ ⟨⟩ - hsc
          exact h sc hsc
        · intro h sc hsc
          exact h op op' facts sc rfl rfl rfl hvalidFacts hsc

end

/-! ## A token operation, with its defaults left out and written out -/

def tokenRead : Operation where
  operationID := "op.project.token_read"
  authMethod := .scopedToken
  scope := .projectCredential
  allowedProjectRoles := ["role_caller"]

def tokenCatalog (op : Operation) : Catalog := ⟨1, ⟨[], ["role_caller"]⟩, [op]⟩

def tokenFacts : Facts Unit where
  activeUser := true
  activeWorkspaceMembership := true
  activeProjectMembership := true
  projectRoles := ["role_caller"]

def omitted : Evaluator FixedRule Unit := ⟨tokenCatalog tokenRead, noRules, fun _ _ => .ok tokenFacts, by decide⟩

def explicit : Evaluator FixedRule Unit where
  catalog := tokenCatalog { tokenRead with assurance := .none, recentAuth := .none, idempotency := .none }
  registry := noRules
  provider _ _ := .ok tokenFacts
  valid := by decide

/-- All defaults but the recent authentication are left out. -/
def sparse : Evaluator FixedRule Unit where
  catalog := tokenCatalog { tokenRead with recentAuth := .none }
  registry := noRules
  provider _ _ := .ok tokenFacts
  valid := by decide

def token : Option Principal := some (.value (.scopedToken ⟨"u1", "tk1", ⟨"t1", "p1"⟩⟩))

theorem hash_alike_iff_sparse : explicit.authorize 0 "op.project.token_read" token (some (.project "t1" "p1")) second =
    sparse.authorize 0 "op.project.token_read" token (some (.project "t1" "p1")) second := by
  have hhash : explicit.catalog.hash id = sparse.catalog.hash id := by decide
  refine (hash_alike_iff Function.injective_id hhash rfl rfl 0 _ _ _ _).2 ?_
  intro op op' facts sc hop hop' _ _ _
  cases hop
  cases hop'
  have hpasses : ∀ {a b : Request FixedRule Unit}, a.operation.recentAuth = .none → PassesLeftOut a b :=
    fun hnone hempty => nomatch hnone.symm.trans hempty
  refine ⟨hpasses rfl, hpasses rfl, ?_⟩
  -- there are no rules to ask
  intro before st after _ _ _ _
  rfl

/-- The same operation is challenged where its defaults are left out, and allowed where
they are written out. -/
theorem omitted_challenged : ¬ ∀ e e' : Evaluator FixedRule Unit, e.catalog.hash id = e'.catalog.hash id →
    e'.registry = e.registry → e'.provider = e.provider →
    ∀ (clock : Instant) (operationID : String) (principal : Option Principal) (scope : Option Scope) (now : Instant),
      e.authorize clock operationID principal scope now = e'.authorize clock operationID principal scope now := by
  intro h
  have hhash : omitted.catalog.hash id = explicit.catalog.hash id := by decide
  have halike := h omitted explicit hhash rfl rfl 0 "op.project.token_read" token (some (.project "t1" "p1")) second
  have homitted : (omitted.authorize 0 "op.project.token_read" token (some (.project "t1" "p1")) second).toOption.map
      Decision.outcome = some .challenge := by decide
  have hexplicit : (explicit.authorize 0 "op.project.token_read" token (some (.project "t1" "p1")) second).toOption.map
      Decision.outcome = some .allow := by decide
  rw [halike, hexplicit] at homitted
  cases homitted

end Ploykit.Authorization

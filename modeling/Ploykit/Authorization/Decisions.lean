import Ploykit.Authorization.Evaluator

/-!
# Decisions

What each stage asks of a request, said without the order and the branches of the
evaluation, and with what a validated catalog says of its operations.
-/

namespace Ploykit.Authorization

open Lib.Checks

/-! ## Validated operations -/

section

variable {R : Type} {reg : Registry R} {c : Catalog} {roles : RoleVocab} {op : Operation} {ops : List Operation}

theorem validateOperations_ok {i : Nat} {seen : List String} (h : validateOperations roles i seen ops = .ok ())
    (hop : op ∈ ops) : op.operationID ≠ "" ∧ validateOperation roles op = .ok () := by
  induction ops generalizing i seen with
  | nil => cases hop
  | cons op' ops ih =>
    simp only [validateOperations, validateClosedName, seq_ok, refuseIf_ok] at h
    obtain ⟨⟨hname, -⟩, -, hvalid, hrest⟩ := h
    cases hop with
    | head => exact ⟨hname, hvalid⟩
    | tail _ hmem => exact ih hrest hmem

/-- What is checked of every operation of a catalog, in normal form. -/
theorem Catalog.validate_operation (h : c.validate reg = .ok ()) (hop : op ∈ c.operations) :
    op.operationID ≠ "" ∧ validateOperation c.normalized.roles op.normalized = .ok () := by
  simp only [Catalog.validate, Catalog.validateStructure, seq_ok] at h
  have hmem : op.normalized ∈ c.normalized.operations := by
    rw [Catalog.normalized, List.mem_insertionSort]
    exact List.mem_map_of_mem hop
  exact validateOperations_ok h.1.2.2.2 hmem

/-- An operation that the checks accept, in the terms of the operation as it is given. -/
structure Operation.Valid (op : Operation) : Prop where
  authMethod : op.authMethod.valid
  scope : op.scope.valid
  recentAuth : op.recentAuth = .empty ∨ op.recentAuth.valid
  workspaceRoles : op.allowedWorkspaceRoles ≠ [] ↔ op.scope = .workspacePath ∨ op.scope = .projectGovernance
  projectRoles : op.allowedProjectRoles ≠ [] ↔ op.scope = .projectPath ∨
    op.scope = .projectCredential ∧ op.authMethod = .scopedToken

theorem normalizeNames_eq_nil {names : List String} : normalizeNames names = [] ↔ names = [] := by
  rw [normalizeNames, ← List.length_eq_zero_iff, List.length_insertionSort, List.length_eq_zero_iff]

/-- Which operations declare roles. -/
theorem validateScopeSemantics_roles (h : validateScopeSemantics op = .ok ()) :
    (op.allowedWorkspaceRoles ≠ [] ↔ op.scope = .workspacePath ∨ op.scope = .projectGovernance) ∧
      (op.allowedProjectRoles ≠ [] ↔ op.scope = .projectPath ∨
        op.scope = .projectCredential ∧ op.authMethod = .scopedToken) := by
  unfold validateScopeSemantics at h
  cases hscope : op.scope with
  | other name => simp [hscope] at h
  | platform => simp_all
  | workspacePath => simp_all
  | projectPath => simp_all
  | projectGovernance => simp_all
  | projectCredential =>
    simp only [hscope, seq_ok, refuseIf_ok, not_and, not_not] at h
    obtain ⟨hmethod, hws, htoken, hmachine⟩ := h
    refine ⟨by simp [hws], ⟨fun hpj => .inr ⟨rfl, ?_⟩, ?_⟩⟩
    · by_contra hm
      exact hpj (hmachine (hmethod hm))
    · rintro (hpath | ⟨-, hm⟩)
      · cases hpath
      · exact htoken hm

theorem Operation.Valid.of_normalized (h : validateOperation roles op.normalized = .ok ()) : op.Valid := by
  simp only [validateOperation, validateOperationSemantics, seq_ok, refuseIf_ok, mapError_ok, not_not] at h
  obtain ⟨hmethod, hscope, -, hrecent, -, -, -, -, -, hroles, -⟩ := h
  obtain ⟨hws, hpj⟩ := validateScopeSemantics_roles hroles
  have hws' : op.normalized.allowedWorkspaceRoles ≠ [] ↔ op.allowedWorkspaceRoles ≠ [] :=
    not_congr normalizeNames_eq_nil
  have hpj' : op.normalized.allowedProjectRoles ≠ [] ↔ op.allowedProjectRoles ≠ [] :=
    not_congr normalizeNames_eq_nil
  refine ⟨hmethod, hscope, ?_, hws'.symm.trans hws, hpj'.symm.trans hpj⟩
  by_cases hempty : op.recentAuth = .empty
  · exact .inl hempty
  · rw [Operation.normalized, if_neg hempty] at hrecent
    exact .inr hrecent

/-- Every operation of a validated catalog has a name and is valid. -/
theorem Catalog.valid (h : c.validate reg = .ok ()) (hop : op ∈ c.operations) :
    op.operationID ≠ "" ∧ op.Valid := by
  obtain ⟨hname, hvalid⟩ := c.validate_operation h hop
  exact ⟨hname, .of_normalized hvalid⟩

end

/-! ## What the stages ask for -/

namespace PrincipalValue

variable {V : Type}

/-- The session or the credential is active and has not expired. Of a scoped token the
memberships are asked later. -/
def Active (facts : Facts V) (now : Instant) : PrincipalValue → Prop
  | session p => facts.activeUser ∧ facts.activeSession ∧ now ≤ p.absoluteExpiry ∧ now ≤ p.idleExpiry
  | scopedToken _ => True
  | machineCredential p =>
    facts.credentialGrantActive ∧ p.notBefore ≤ now ∧ (p.expiresAt = 0 ∨ now < p.expiresAt)

/-- The scope that the credential is bound to. -/
def binding : PrincipalValue → Option ProjectScope
  | session _ => none
  | scopedToken p => some p.scope
  | machineCredential p => some p.scope

end PrincipalValue

/-- The scope has the shape of its kind. -/
def Scope.Fits (scope : Scope) : ScopeKind → Prop
  | .platform => scope.workspaceID = none ∧ scope.projectID = none
  | .workspacePath => scope.workspaceID ≠ none ∧ scope.projectID = none
  | .projectPath | .projectGovernance | .projectCredential =>
    scope.workspaceID ≠ none ∧ scope.projectID ≠ none
  | .other _ => False

namespace Request

variable {R V : Type} [Rule R V]

/-- The request with its time filled in. -/
def timed (req : Request R V) (clock : Instant) : Request R V :=
  if req.now.isZero then { req with now := clock } else req

omit [Rule R V] in
@[simp] theorem timed_operation {req : Request R V} {clock : Instant} :
    (req.timed clock).operation = req.operation := by
  unfold timed
  split <;> rfl

omit [Rule R V] in
@[simp] theorem timed_principal {req : Request R V} {clock : Instant} :
    (req.timed clock).principal = req.principal := by
  unfold timed
  split <;> rfl

omit [Rule R V] in
@[simp] theorem timed_scope {req : Request R V} {clock : Instant} : (req.timed clock).scope = req.scope := by
  unfold timed
  split <;> rfl

/-- The assurance and the recent authentication that the operation asks for. -/
structure SteppedUp (req : Request R V) : Prop where
  assurance : req.operation.assurance = .aal2 → req.facts.assurance = .aal2
  password : req.operation.recentAuth = .password ∨ req.operation.recentAuth = .passwordAndMFA →
    recent req req.facts.recentPasswordAt
  mfa : req.operation.recentAuth = .passwordAndMFA → recent req req.facts.recentMFAAt

/-- The principal `v` is authenticated as the operation asks. -/
structure Authenticated (req : Request R V) (v : Option PrincipalValue) : Prop where
  anonymous : req.operation.authMethod = .unauthenticated → v = none
  method : req.operation.authMethod ≠ .unauthenticated → v.map PrincipalValue.authMethod
    = some req.operation.authMethod
  active : ∀ p ∈ v, p.Active req.facts req.now
  steppedUp : req.operation.authMethod ≠ .unauthenticated → req.SteppedUp

structure InScope (req : Request R V) (v : Option PrincipalValue) (scope : Scope) : Prop where
  fits : scope.Fits req.operation.scope
  bound : ∀ p ∈ v, ∀ b ∈ p.binding, scope.workspaceID = some b.workspaceID ∧ scope.projectID = some b.projectID

structure Member (req : Request R V) : Prop where
  token : req.operation.authMethod = .scopedToken → req.facts.activeUser ∧
    req.facts.activeWorkspaceMembership ∧ req.facts.activeProjectMembership
  workspace : req.operation.scope = .workspacePath ∨ req.operation.scope = .projectPath ∨
    req.operation.scope = .projectGovernance → req.facts.activeWorkspaceMembership
  project : req.operation.scope = .projectPath → req.facts.activeProjectMembership

/-- The roles that the operation declares meet those of the person. -/
structure InRole (req : Request R V) : Prop where
  workspace : req.operation.allowedWorkspaceRoles ≠ [] →
    ∃ role ∈ req.operation.allowedWorkspaceRoles, role ∈ req.facts.workspaceRoles
  project : req.operation.allowedProjectRoles ≠ [] →
    ∃ role ∈ req.operation.allowedProjectRoles, role ∈ req.facts.projectRoles

def InputValid (req : Request R V) : Prop :=
  req.operation.idempotency = .required → req.facts.idempotencyValid

/-- No rule of the stage answers with anything but to allow. -/
def RulesPass (req : Request R V) (stage : Stage) : Prop :=
  ∀ rule, some rule ∈ req.rules → Rule.stage V rule = stage → ∀ d ∈ Rule.evaluate rule req, d.outcome = .allow

/-- What a stage asks for, rules of the product included. -/
def Passes (req : Request R V) (v : Option PrincipalValue) (scope : Scope) : Stage → Prop
  | .authentication => req.Authenticated v ∧
    (req.operation.authMethod ≠ .unauthenticated → req.RulesPass .authentication)
  | .scope => req.InScope v scope ∧ req.RulesPass .scope
  | .membership => req.Member ∧ req.RulesPass .membership
  | .role => req.InRole ∧ req.RulesPass .role
  | .policy => req.RulesPass .policy
  | _ => req.InputValid ∧ req.RulesPass .input

end Request

/-! ## What the stages answer -/

section

variable {R V : Type} [Rule R V] {req : Request R V} {st : Stage} {scope : Scope} {v : Option PrincipalValue}
  {d : Decision} {rules : List (Option R)}

theorem runRules_eq_none : runRules req st rules = none ↔
    ∀ rule, some rule ∈ rules → Rule.stage V rule = st → ∀ d ∈ Rule.evaluate rule req, d.outcome = .allow := by
  induction rules with
  | nil => simp [runRules]
  | cons rule rules ih =>
    cases rule with
    | none => simpa [runRules] using ih
    | some rule =>
      simp only [runRules, List.mem_cons, Option.some.injEq, forall_eq_or_imp]
      by_cases hstage : Rule.stage V rule = st
      · cases heval : Rule.evaluate rule req with
        | none => simpa [hstage] using ih
        | some d =>
          by_cases hallow : d.outcome = .allow
          · simpa [hstage, hallow] using ih
          · simp [hstage, hallow]
      · simpa [hstage] using ih

theorem runProductRules_eq_none : runProductRules req st = none ↔ req.RulesPass st := runRules_eq_none

/-- The decision is a refusal of the stage. -/
structure Decision.Refuses (d : Decision) (st : Stage) : Prop where
  outcome : d.outcome ≠ .allow
  stage : d.stage = st

theorem refuses_deny {reason : String} : (deny st reason).Refuses st := ⟨nofun, rfl⟩

theorem refuses_ite {c : Prop} [Decidable c] {reason : String} {rest : Option Decision}
    (h : (if c then some (deny st reason) else rest) = some d) (hrest : rest = some d → d.Refuses st) :
    d.Refuses st := by
  split at h
  · cases h
    exact refuses_deny
  · exact hrest h

/-- A rule that answers refuses, at the stage it is run at. -/
theorem runRules_refuses (h : runRules req st rules = some d) : d.Refuses st := by
  induction rules with
  | nil => cases h
  | cons rule rules ih =>
    cases rule with
    | none => exact ih h
    | some rule =>
      unfold runRules at h
      split at h
      · exact ih h
      split at h
      · exact ih h
      split at h
      · exact ih h
      · cases h
        exact ⟨‹_›, rfl⟩

theorem runProductRules_refuses (h : runProductRules req st = some d) : d.Refuses st := runRules_refuses h

omit [Rule R V] in
theorem runBuiltinRules_refuses (h : runBuiltinRules req = some d) : d.Refuses .authentication := by
  unfold runBuiltinRules builtinAssuranceRule builtinRecentAuthRule at h
  split at h
  · simp only [Option.none_or, Option.ite_none_right_eq_some, Option.some.injEq] at h
    rw [← h.2]
    exact ⟨nofun, rfl⟩
  · cases h
    exact ⟨nofun, rfl⟩

theorem evaluateAuthentication_refuses (h : evaluateAuthentication req = some d) :
    d.Refuses .authentication := by
  unfold evaluateAuthentication at h
  split at h
  · exact refuses_ite h nofun
  split at h
  · cases h
    exact refuses_deny
  refine refuses_ite h fun h => refuses_ite h fun h => refuses_ite h fun h => ?_
  rcases Option.or_eq_some_iff.1 h with hbuiltin | ⟨-, hproduct⟩
  · exact runBuiltinRules_refuses hbuiltin
  · exact runProductRules_refuses hproduct

theorem evaluateRole_refuses (h : evaluateRole req = some d) : d.Refuses .role := by
  unfold evaluateRole at h
  dsimp only at h
  split at h
  · exact refuses_ite h runProductRules_refuses
  · exact refuses_ite h runProductRules_refuses
  · exact refuses_ite h runProductRules_refuses
  · exact refuses_ite h runProductRules_refuses
  · exact runProductRules_refuses h

/-- A stage that does not pass refuses, and says which stage it is. -/
theorem evaluateStage_refuses (hst : st ∈ stages) (h : evaluateStage req scope st = some d) : d.Refuses st := by
  simp only [stages, List.mem_cons, List.not_mem_nil, or_false] at hst
  rcases hst with rfl | rfl | rfl | rfl | rfl | rfl
  · exact evaluateAuthentication_refuses h
  · exact refuses_ite h fun h => refuses_ite h runProductRules_refuses
  · exact refuses_ite h fun h => refuses_ite h fun h => refuses_ite h runProductRules_refuses
  · exact evaluateRole_refuses h
  · exact runProductRules_refuses h
  · exact refuses_ite h runProductRules_refuses

theorem evaluate_timed (clock : Instant) : evaluate clock req = match (req.timed clock).scope with
    | none => deny .policy reasonUnknownOperationOrScope
    | some scope =>
      if (req.timed clock).operation.operationID = "" then deny .policy reasonUnknownOperationOrScope
      else (stages.findSome? (evaluateStage (req.timed clock) scope)).getD allow := rfl

theorem evaluate_eq (clock : Instant) (hscope : req.scope = some scope)
    (hname : req.operation.operationID ≠ "") :
    evaluate clock req = (stages.findSome? (evaluateStage (req.timed clock) scope)).getD allow := by
  simp only [evaluate_timed, Request.timed_scope, Request.timed_operation, hscope, if_neg hname]

/-- A request without a scope is refused before any stage. -/
theorem evaluate_unscoped (clock : Instant) (hscope : req.scope = none) :
    evaluate clock req = deny .policy reasonUnknownOperationOrScope := by
  simp only [evaluate_timed, Request.timed_scope, hscope]

theorem evaluate_unnamed (clock : Instant) (hname : req.operation.operationID = "") :
    evaluate clock req = deny .policy reasonUnknownOperationOrScope := by
  cases hscope : req.scope with
  | none => exact evaluate_unscoped clock hscope
  | some scope => simp only [evaluate_timed, Request.timed_scope, Request.timed_operation, hscope, if_pos hname]

/-- The first stage that does not pass decides. -/
theorem evaluate_cases (clock : Instant) (hscope : req.scope = some scope)
    (hname : req.operation.operationID ≠ "") :
    evaluate clock req = allow ∧ (∀ st ∈ stages, evaluateStage (req.timed clock) scope st = none) ∨
      ∃ before st after, stages = before ++ st :: after ∧
        (∀ st' ∈ before, evaluateStage (req.timed clock) scope st' = none) ∧
        evaluateStage (req.timed clock) scope st = some (evaluate clock req) := by
  rw [evaluate_eq clock hscope hname]
  cases hfirst : stages.findSome? (evaluateStage (req.timed clock) scope) with
  | none => exact .inl ⟨rfl, List.findSome?_eq_none_iff.1 hfirst⟩
  | some d =>
    obtain ⟨before, st, after, hsplit, hd, hbefore⟩ := List.findSome?_eq_some_iff.1 hfirst
    exact .inr ⟨before, st, after, hsplit, hbefore, hd⟩

/-- A stage that does not pass, after stages that do, is the stage of the decision. -/
theorem evaluate_refuses (clock : Instant) (hscope : req.scope = some scope)
    (hname : req.operation.operationID ≠ "") {before after : List Stage} (hsplit : stages = before ++ st :: after)
    (hbefore : ∀ st' ∈ before, evaluateStage (req.timed clock) scope st' = none)
    (hst : evaluateStage (req.timed clock) scope st ≠ none) : (evaluate clock req).Refuses st := by
  obtain ⟨d, hd⟩ := Option.ne_none_iff_exists'.1 hst
  have hfirst : stages.findSome? (evaluateStage (req.timed clock) scope) = some d :=
    List.findSome?_eq_some_iff.2 ⟨before, st, after, hsplit, hd, hbefore⟩
  rw [evaluate_eq clock hscope hname, hfirst]
  exact evaluateStage_refuses (hsplit ▸ List.mem_append_right before (List.mem_cons_self ..)) hd

theorem evaluate_allow_iff (clock : Instant) (hscope : req.scope = some scope)
    (hname : req.operation.operationID ≠ "") : (evaluate clock req).outcome = .allow ↔
      ∀ st ∈ stages, evaluateStage (req.timed clock) scope st = none := by
  rcases evaluate_cases clock hscope hname with ⟨hallow, hpass⟩ | ⟨before, st, after, hsplit, -, hst⟩
  · exact ⟨fun _ => hpass, fun _ => congrArg Decision.outcome hallow⟩
  · have hmem : st ∈ stages := hsplit ▸ List.mem_append_right before (List.mem_cons_self ..)
    constructor
    · intro hallow
      exact absurd hallow (evaluateStage_refuses hmem hst).outcome
    · intro hpass
      cases hst.symm.trans (hpass st hmem)

/-! ### Passing -/

omit [Rule R V] in
theorem runBuiltinRules_eq_none (hrecent : req.operation.recentAuth.valid) :
    runBuiltinRules req = none ↔ req.SteppedUp := by
  have hassurance : builtinAssuranceRule req = none ↔
      (req.operation.assurance = .aal2 → req.facts.assurance = .aal2) := by
    unfold builtinAssuranceRule
    by_cases hop : req.operation.assurance = .aal2 <;> simp [hop]
  have hrecentAuth : builtinRecentAuthRule req = none ↔
      (req.operation.recentAuth = .password ∨ req.operation.recentAuth = .passwordAndMFA →
        recent req req.facts.recentPasswordAt) ∧
      (req.operation.recentAuth = .passwordAndMFA → recent req req.facts.recentMFAAt) := by
    unfold builtinRecentAuthRule
    cases hrule : req.operation.recentAuth with
    | empty => simp [hrule, RecentAuthRule.valid] at hrecent
    | other name => simp [hrule, RecentAuthRule.valid] at hrecent
    | _ => simp
  rw [runBuiltinRules, Option.or_eq_none_iff, hassurance, hrecentAuth]
  exact ⟨fun ⟨h₁, h₂, h₃⟩ => ⟨h₁, h₂, h₃⟩, fun ⟨h₁, h₂, h₃⟩ => ⟨h₁, h₂, h₃⟩⟩

theorem ite_some_eq_none {c : Prop} [Decidable c] {rest : Option Decision} :
    (if c then some d else rest) = none ↔ ¬ c ∧ rest = none := by
  by_cases hc : c <;> simp [hc]

omit [Rule R V] in
/-- The two checks of activity, each on its own kind of principal. -/
theorem active_iff {p : PrincipalValue} :
    (¬ ∃ session ∈ (Principal.value p).asSession, ¬ req.facts.activeUser ∨ ¬ req.facts.activeSession ∨
        session.absoluteExpiry < req.now ∨ session.idleExpiry < req.now) ∧
      (¬ ∃ machine ∈ (Principal.value p).asMachineCredential, ¬ req.facts.credentialGrantActive ∨
        req.now < machine.notBefore ∨ (¬ machine.expiresAt.isZero ∧ machine.expiresAt ≤ req.now)) ↔
      p.Active req.facts req.now := by
  cases p with
  | session p => simp [Principal.asSession, Principal.asMachineCredential, PrincipalValue.Active]
  | scopedToken p => simp [Principal.asSession, Principal.asMachineCredential, PrincipalValue.Active]
  | machineCredential p =>
    simp [Principal.asSession, Principal.asMachineCredential, PrincipalValue.Active, Instant.isZero,
      or_iff_not_imp_left]

theorem evaluateAuthentication_eq_none (hrecent : req.operation.recentAuth.valid)
    (hv : req.principal = v.map .value) :
    evaluateAuthentication req = none ↔ req.Passes v scope .authentication := by
  unfold evaluateAuthentication Request.Passes
  by_cases hmethod : req.operation.authMethod = .unauthenticated
  · rw [if_pos hmethod, hv]
    cases v with
    | none => simpa [hmethod] using (⟨fun _ => rfl, by simp [hmethod], nofun, by simp [hmethod]⟩ :
        req.Authenticated none)
    | some p => simpa using fun h : req.Authenticated (some p) => absurd (h.anonymous hmethod) nofun
  rw [if_neg hmethod, hv]
  cases v with
  | none => simpa using fun h : req.Authenticated none => absurd (h.method hmethod) nofun
  | some p =>
    have hactive := @active_iff R V req p
    simp only [Option.map_some, ite_some_eq_none, Option.or_eq_none_iff, runBuiltinRules_eq_none hrecent,
      runProductRules_eq_none, not_not]
    constructor
    · rintro ⟨haccepted, hsession, hmachine, hstepped, hrules⟩
      have hactive' : ∀ p' ∈ some p, p'.Active req.facts req.now := by
        rintro p' ⟨⟩
        exact hactive.1 ⟨hsession, hmachine⟩
      exact ⟨⟨fun h => absurd h hmethod, fun _ => congrArg some haccepted, hactive', fun _ => hstepped⟩,
        fun _ => hrules⟩
    · rintro ⟨hauth, hrules⟩
      obtain ⟨hsession, hmachine⟩ := hactive.2 (hauth.active p rfl)
      exact ⟨Option.some.inj (hauth.method hmethod), hsession, hmachine, hauth.steppedUp hmethod,
        hrules hmethod⟩

/-- An identifier that is there is not empty. -/
theorem Scope.workspaceID_any (scope : Scope) : scope.workspaceID.any (· ≠ "") = scope.workspaceID.isSome := by
  cases scope with
  | platform => rfl
  | workspace ws => by_cases hws : ws = "" <;> simp [Scope.workspaceID, hws]
  | project ws pj => by_cases hws : ws = "" <;> simp [Scope.workspaceID, hws]

theorem Scope.projectID_any (scope : Scope) : scope.projectID.any (· ≠ "") = scope.projectID.isSome := by
  cases scope with
  | platform => rfl
  | workspace ws => rfl
  | project ws pj => by_cases hpj : pj = "" <;> simp [Scope.projectID, hpj]

theorem scopeMatches_iff {kind : ScopeKind} : scopeMatches kind scope = true ↔ scope.Fits kind := by
  unfold scopeMatches
  rw [scope.workspaceID_any, scope.projectID_any]
  cases kind with
  | other name => simp [Scope.Fits]
  | platform => simp [Scope.Fits]
  | _ => simp [Scope.Fits, Option.isSome_iff_ne_none]

theorem evaluateScope_eq_none (hv : req.principal = v.map .value) :
    evaluateScope req scope = none ↔ req.Passes v scope .scope := by
  have hbinding : principalScopeBinding req.principal = v.bind PrincipalValue.binding := by
    rw [hv]
    rcases v with _ | _ | _ | _ <;> rfl
  simp only [evaluateScope, ite_some_eq_none, not_not, scopeMatches_iff, runProductRules_eq_none, hbinding]
  constructor
  · rintro ⟨hfits, hbound, hrules⟩
    refine ⟨⟨hfits, fun p hp b hb => ?_⟩, hrules⟩
    by_contra hne
    exact hbound ⟨b, Option.mem_bind_iff.2 ⟨p, hp, hb⟩, hne⟩
  · rintro ⟨⟨hfits, hbound⟩, hrules⟩
    refine ⟨hfits, ?_, hrules⟩
    rintro ⟨b, hb, hne⟩
    obtain ⟨p, hp, hb⟩ := Option.mem_bind_iff.1 hb
    exact hne (hbound p hp b hb)

theorem evaluateMembership_eq_none : evaluateMembership req = none ↔ req.Passes v scope .membership := by
  simp only [evaluateMembership, ite_some_eq_none, runProductRules_eq_none]
  constructor
  · rintro ⟨htoken, hws, hpj, hrules⟩
    exact ⟨⟨fun h => not_not.1 fun hn => htoken ⟨h, hn⟩, fun h => not_not.1 fun hn => hws ⟨h, hn⟩,
      fun h => not_not.1 fun hn => hpj ⟨h, hn⟩⟩, hrules⟩
  · rintro ⟨⟨htoken, hws, hpj⟩, hrules⟩
    exact ⟨fun h => h.2 (htoken h.1), fun h => h.2 (hws h.1), fun h => h.2 (hpj h.1), hrules⟩

theorem intersects_iff {actual allowed : List String} :
    intersects actual allowed = true ↔ ∃ role ∈ allowed, role ∈ actual := by
  simp [intersects]

/-- The kinds of scope whose roles are compared are those whose operations declare them. -/
theorem evaluateRole_eq_none (hop : req.operation.Valid) :
    evaluateRole req = none ↔ req.Passes v scope .role := by
  have hpasses : req.Passes v scope .role ↔ req.InRole ∧ req.RulesPass .role := .rfl
  have hrole : req.InRole ↔
      (req.operation.scope = .workspacePath ∨ req.operation.scope = .projectGovernance →
        intersects req.facts.workspaceRoles req.operation.allowedWorkspaceRoles) ∧
      (req.operation.scope = .projectPath ∨
        req.operation.scope = .projectCredential ∧ req.operation.authMethod = .scopedToken →
        intersects req.facts.projectRoles req.operation.allowedProjectRoles) := by
    rw [← hop.workspaceRoles, ← hop.projectRoles, intersects_iff, intersects_iff]
    exact ⟨fun h => ⟨h.workspace, h.project⟩, fun h => ⟨h.1, h.2⟩⟩
  rw [hpasses, hrole]
  unfold evaluateRole
  cases hscope : req.operation.scope with
  | projectCredential => simp [ite_some_eq_none, runProductRules_eq_none]
  | _ => simp [ite_some_eq_none, runProductRules_eq_none]

theorem evaluateInput_eq_none : evaluateInput req = none ↔ req.Passes v scope .input := by
  simp only [evaluateInput, ite_some_eq_none, runProductRules_eq_none, not_and, not_not]
  rfl

theorem evaluateStage_eq_none (hop : req.operation.Valid) (hrecent : req.operation.recentAuth ≠ .empty)
    (hv : req.principal = v.map .value) (hst : st ∈ stages) :
    evaluateStage req scope st = none ↔ req.Passes v scope st := by
  simp only [stages, List.mem_cons, List.not_mem_nil, or_false] at hst
  rcases hst with rfl | rfl | rfl | rfl | rfl | rfl
  · exact evaluateAuthentication_eq_none (hop.recentAuth.resolve_left hrecent) hv
  · exact evaluateScope_eq_none hv
  · exact evaluateMembership_eq_none
  · exact evaluateRole_eq_none hop
  · exact runProductRules_eq_none
  · exact evaluateInput_eq_none

variable {reg : Registry R} {c : Catalog}

/-- For an operation of a validated catalog that says what recent authentication it asks
for: a request with a scope is allowed exactly if every stage passes, and else the
decision is a refusal of the first stage that does not. -/
theorem evaluate_decides (hc : c.validate reg = .ok ()) (hop : req.operation ∈ c.operations)
    (hrecent : req.operation.recentAuth ≠ .empty) (hv : req.principal = v.map .value) (clock : Instant) :
    (req.scope = none → evaluate clock req = deny .policy reasonUnknownOperationOrScope) ∧
      ∀ scope, req.scope = some scope →
        ((evaluate clock req).outcome = .allow ↔ ∀ st ∈ stages, (req.timed clock).Passes v scope st) ∧
        ∀ before st after, stages = before ++ st :: after →
          (∀ st' ∈ before, (req.timed clock).Passes v scope st') → ¬ (req.timed clock).Passes v scope st →
          (evaluate clock req).Refuses st := by
  refine ⟨evaluate_unscoped clock, fun scope hscope => ?_⟩
  obtain ⟨hname, hvalid⟩ := c.valid hc hop
  have hoperation : (req.timed clock).operation = req.operation := Request.timed_operation
  rw [← hoperation] at hvalid hrecent
  have hpasses : ∀ st ∈ stages, (evaluateStage (req.timed clock) scope st = none ↔
      (req.timed clock).Passes v scope st) := by
    intro st hst
    exact evaluateStage_eq_none hvalid hrecent (Request.timed_principal.trans hv) hst
  constructor
  · rw [evaluate_allow_iff clock hscope hname]
    exact forall₂_congr hpasses
  · intro before st after hsplit hbefore hst
    have hmem : ∀ st' ∈ before, st' ∈ stages := fun st' h => hsplit ▸ List.mem_append_left _ h
    refine evaluate_refuses clock hscope hname hsplit (fun st' h => (hpasses st' (hmem st' h)).2 (hbefore st' h)) ?_
    rw [Ne, hpasses st (hsplit ▸ List.mem_append_right before (List.mem_cons_self ..))]
    exact hst

end

/-! ## A catalog of one operation -/

/-- A rule that answers the same to every request. -/
structure FixedRule where
  name : String
  stage : Stage
  answer : Option Decision
  deriving DecidableEq, Repr

instance {V : Type} : Rule FixedRule V where
  ruleName := FixedRule.name
  stage := FixedRule.stage
  evaluate rule _ := rule.answer

def manage : Operation where
  operationID := "op.project.manage"
  authMethod := .session
  scope := .projectPath
  allowedProjectRoles := ["role_manager"]
  assurance := .aal2
  recentAuth := .password
  recentAuthWindowSeconds := 600
  idempotency := .required

def managed : Catalog := ⟨1, ⟨["role_owner"], ["role_manager"]⟩, [manage]⟩

def noRules : Registry FixedRule := ⟨fun _ => none, []⟩

def manager : SessionPrincipal := ⟨"u1", "s1", .aal2, 5000 * second, 5000 * second⟩

/-- A request that passes every stage. -/
def manageRequest : Request FixedRule Unit where
  operation := manage
  principal := some (.value (.session manager))
  scope := some (.project "t1" "p1")
  facts := {
    activeUser := true
    activeSession := true
    activeWorkspaceMembership := true
    activeProjectMembership := true
    projectRoles := ["role_manager"]
    assurance := .aal2
    recentPasswordAt := 900 * second
    idempotencyValid := true }
  now := 1000 * second

def maintenance : FixedRule := ⟨"maintenance_mode", .policy, some (deny .policy "maintenance_mode_active")⟩

/-- The request under maintenance, without a valid idempotency key. -/
def lockedRequest : Request FixedRule Unit :=
  { manageRequest with facts.idempotencyValid := false, rules := [some maintenance] }

theorem managed_valid : managed.validate noRules = .ok () := by decide

theorem evaluate_decides_manage : (evaluate 0 manageRequest).outcome = .allow ∧
    ∀ st ∈ stages, (manageRequest.timed 0).Passes (some (.session manager)) (.project "t1" "p1") st := by
  have hop : manageRequest.operation ∈ managed.operations := List.mem_singleton.2 rfl
  have hdecides := evaluate_decides (v := some (.session manager)) managed_valid hop (by decide) rfl 0
  have hallow : (evaluate 0 manageRequest).outcome = .allow := by decide
  exact ⟨hallow, (hdecides.2 _ rfl).1.1 hallow⟩

/-- The rules of the policy stage are asked before the input. -/
theorem policy_precedes_input : ¬ ∀ (req : Request FixedRule Unit) (v : Option PrincipalValue) (scope : Scope),
    managed.validate noRules = .ok () → req.operation ∈ managed.operations →
    req.principal = v.map .value → req.scope = some scope →
    (∀ st ∈ [Stage.authentication, .scope, .membership, .role], req.Passes v scope st) →
    ¬ req.InputValid → (evaluate 0 req).stage = .input := by
  intro h
  have hvalid : Operation.Valid manage := (managed.valid managed_valid (List.mem_singleton.2 rfl)).2
  have hpasses : ∀ st ∈ [Stage.authentication, .scope, .membership, .role],
      lockedRequest.Passes (some (.session manager)) (.project "t1" "p1") st := by
    intro st hst
    have hnone : ∀ st ∈ [Stage.authentication, .scope, .membership, .role],
        evaluateStage lockedRequest (.project "t1" "p1") st = none := by decide
    refine (evaluateStage_eq_none hvalid (by decide) rfl ?_).1 (hnone st hst)
    exact List.mem_of_mem_take (i := 4) hst
  have hinput : ¬ lockedRequest.InputValid := fun hin => Bool.false_ne_true (hin rfl)
  have hstage := h lockedRequest _ _ managed_valid (List.mem_singleton.2 rfl) rfl rfl hpasses hinput
  exact absurd hstage (by decide)

end Ploykit.Authorization

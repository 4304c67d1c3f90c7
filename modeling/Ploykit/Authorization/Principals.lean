import Ploykit.Authorization.Tightening

/-!
# Principals by value and by pointer

The type assertions of the evaluation name the structs only. A pointer has the methods
of the struct, so its method is accepted, and then it falls through the assertions: its
session or credential is not looked at, and it is bound to no scope.
-/

namespace Ploykit.Authorization

/-! ## The checks that look at the principal -/

/-- The reason of a principal that is not active. -/
def PrincipalValue.inactiveReason : PrincipalValue → String
  | machineCredential _ => reasonCredentialInactive
  | _ => reasonSessionInactive

/-- The scope is the one that the credential is bound to, if it is bound. -/
def PrincipalValue.Bound (v : PrincipalValue) (scope : Scope) : Prop :=
  ∀ b ∈ v.binding, scope.workspaceID = some b.workspaceID ∧ scope.projectID = some b.projectID

section

variable {R V : Type} [Rule R V] {req : Request R V} {st : Stage} {scope : Scope} {v : PrincipalValue}

abbrev Request.byValue (req : Request R V) (v : PrincipalValue) : Request R V :=
  { req with principal := some (.value v) }

abbrev Request.byPointer (req : Request R V) (v : PrincipalValue) : Request R V :=
  { req with principal := some (.pointer v) }

/-- The rule answers the same to a principal and to a pointer to it. -/
def IgnoresPointer (V : Type) [Rule R V] (rule : R) : Prop :=
  ∀ (req : Request R V) (v : PrincipalValue), Rule.evaluate rule (req.byPointer v) = Rule.evaluate rule (req.byValue v)

theorem runRules_byPointer {rules : List (Option R)} (hignores : ∀ rule, some rule ∈ rules → IgnoresPointer V rule) :
    runRules (req.byPointer v) st rules = runRules (req.byValue v) st rules := by
  induction rules with
  | nil => rfl
  | cons rule rules ih =>
    have ih := ih fun rule h => hignores rule (.tail _ h)
    cases rule with
    | none => exact ih
    | some rule =>
      have hsame := hignores rule (List.mem_cons_self ..) req v
      simp only [runRules, hsame, ih]

/-- The stages that do not look at the principal. -/
theorem evaluateStage_byPointer (hignores : ∀ rule, some rule ∈ req.rules → IgnoresPointer V rule)
    (hst : st ∈ [Stage.membership, .role, .policy, .input]) :
    evaluateStage (req.byPointer v) scope st = evaluateStage (req.byValue v) scope st := by
  have hstage : st ∈ stages := List.mem_of_mem_drop (i := 2) hst
  rw [evaluateStage_or hstage, evaluateStage_or hstage]
  have hproduct : productCheck (req.byPointer v) st = productCheck (req.byValue v) st := by
    unfold productCheck runProductRules
    rw [runRules_byPointer hignores]
  rw [hproduct]
  simp only [List.mem_cons, List.not_mem_nil, or_false] at hst
  rcases hst with rfl | rfl | rfl | rfl <;> rfl

omit [Rule R V] in
/-- A principal has a method of its own, so the operation is not an unauthenticated one. -/
theorem authMethod_named (hmethod : v.authMethod = req.operation.authMethod) :
    req.operation.authMethod ≠ .unauthenticated := by
  rw [← hmethod]
  cases v <;> exact nofun

theorem evaluateAuthentication_byPointer (hmethod : v.authMethod = req.operation.authMethod) :
    evaluateAuthentication (req.byPointer v) =
      (runBuiltinRules req).or (runProductRules (req.byPointer v) .authentication) := by
  have hnamed := authMethod_named hmethod
  unfold evaluateAuthentication
  simp only [if_neg hnamed, Principal.authMethod, hmethod, ne_eq, not_true, if_false, Principal.asSession,
    Principal.asMachineCredential, Option.not_mem_none, false_and, exists_false]
  rfl

theorem evaluateAuthentication_active (hmethod : v.authMethod = req.operation.authMethod)
    (hactive : v.Active req.facts req.now) : evaluateAuthentication (req.byValue v) =
      (runBuiltinRules req).or (runProductRules (req.byValue v) .authentication) := by
  have hnamed := authMethod_named hmethod
  obtain ⟨hsession, hmachine⟩ := (@active_iff R V (req.byValue v) v).2 hactive
  unfold evaluateAuthentication
  simp only [if_neg hnamed, Principal.authMethod, hmethod, ne_eq, not_true, if_false]
  rw [if_neg hsession, if_neg hmachine]
  rfl

theorem evaluateAuthentication_inactive (hmethod : v.authMethod = req.operation.authMethod)
    (hactive : ¬ v.Active req.facts req.now) :
    evaluateAuthentication (req.byValue v) = some (deny .authentication v.inactiveReason) := by
  have hnamed := authMethod_named hmethod
  rw [← @active_iff R V (req.byValue v) v] at hactive
  unfold evaluateAuthentication
  simp only [if_neg hnamed, Principal.authMethod, hmethod, ne_eq, not_true, if_false]
  cases v with
  | session p =>
    have hnone : ¬ ∃ machine ∈ (Principal.value (.session p)).asMachineCredential,
        ¬ req.facts.credentialGrantActive ∨ req.now < machine.notBefore ∨
          (¬ machine.expiresAt.isZero ∧ machine.expiresAt ≤ req.now) := nofun
    exact if_pos (not_not.1 fun h => hactive ⟨h, hnone⟩)
  | scopedToken p => exact absurd ⟨nofun, nofun⟩ hactive
  | machineCredential p =>
    have hnone : ¬ ∃ session ∈ (Principal.value (.machineCredential p)).asSession,
        ¬ req.facts.activeUser ∨ ¬ req.facts.activeSession ∨
          session.absoluteExpiry < req.now ∨ session.idleExpiry < req.now := nofun
    rw [if_neg hnone]
    exact if_pos (not_not.1 fun h => hactive ⟨hnone, h⟩)

omit [Rule R V] in
theorem principalScopeBinding_value : principalScopeBinding (some (.value v)) = v.binding := by
  cases v <;> rfl

theorem evaluateScope_mismatch (hmatch : scopeMatches req.operation.scope scope = false) :
    evaluateScope req scope = some (deny .scope reasonScopeMismatch) :=
  if_pos (by simp [hmatch])

theorem evaluateScope_byPointer (hmatch : scopeMatches req.operation.scope scope = true) :
    evaluateScope (req.byPointer v) scope = runProductRules (req.byPointer v) .scope := by
  unfold evaluateScope
  rw [if_neg (not_not.2 hmatch), if_neg]
  exact nofun

theorem evaluateScope_bound (hmatch : scopeMatches req.operation.scope scope = true) (hbound : v.Bound scope) :
    evaluateScope (req.byValue v) scope = runProductRules (req.byValue v) .scope := by
  unfold evaluateScope
  rw [if_neg (not_not.2 hmatch), principalScopeBinding_value, if_neg]
  rintro ⟨b, hb, hne⟩
  exact hne (hbound b hb)

theorem evaluateScope_unbound (hmatch : scopeMatches req.operation.scope scope = true)
    (hbound : ¬ v.Bound scope) :
    evaluateScope (req.byValue v) scope = some (deny .scope reasonPrincipalScopeMismatch) := by
  unfold evaluateScope
  rw [if_neg (not_not.2 hmatch), principalScopeBinding_value, if_pos]
  obtain ⟨b, hb⟩ := not_forall.1 hbound
  exact ⟨b, Classical.not_imp.1 hb⟩

/-! ## When a pointer is decided like a value -/

/-- The checks that a pointer passes unseen would pass a value, or make no difference:
the decision has been made before them, or the rules of the stage make the very denial. -/
structure Request.SafeAsPointer (req : Request R V) (v : PrincipalValue) (scope : Scope) : Prop where
  active : v.Active req.facts req.now ∨ runBuiltinRules req = none ∧
    runProductRules (req.byValue v) .authentication = some (deny .authentication v.inactiveReason)
  bound : v.Bound scope ∨ runBuiltinRules req ≠ none ∨
    runProductRules (req.byValue v) .authentication ≠ none ∨
    scopeMatches req.operation.scope scope = false ∨
    runProductRules (req.byValue v) .scope = some (deny .scope reasonPrincipalScopeMismatch)

/-- The stages after the scope. -/
def laterStages (req : Request R V) (scope : Scope) : Option Decision :=
  [Stage.membership, .role, .policy, .input].findSome? (evaluateStage req scope)

theorem findSome?_stages : stages.findSome? (evaluateStage req scope) =
    (evaluateAuthentication req).or ((evaluateScope req scope).or (laterStages req scope)) := by
  have hcons : ∀ (st : Stage) (sts : List Stage), (st :: sts).findSome? (evaluateStage req scope) =
      (evaluateStage req scope st).or (sts.findSome? (evaluateStage req scope)) := by
    intro st sts
    rw [List.findSome?_cons]
    cases evaluateStage req scope st <;> rfl
  rw [stages, hcons, hcons]
  rfl

/-- What is decided later does not name the stages before. -/
theorem laterStages_stage {d : Decision} (h : laterStages req scope = some d) :
    d.stage ≠ .authentication ∧ d.stage ≠ .scope := by
  obtain ⟨st, hst, hd⟩ := List.exists_of_findSome?_eq_some h
  have hstage := (evaluateStage_refuses (List.mem_of_mem_drop (i := 2) hst) hd).stage
  simp only [List.mem_cons, List.not_mem_nil, or_false] at hst
  rw [hstage]
  rcases hst with rfl | rfl | rfl | rfl <;> exact ⟨nofun, nofun⟩

theorem or_getD_eq {x y : Option Decision} {d e : Decision} (hy : y ≠ some d) (he : e ≠ d) :
    (x.or y).getD e = d ↔ x = some d := by
  cases x with
  | some d' => simp
  | none =>
    cases y with
    | none => simpa using he
    | some d' => simpa using hy

theorem allow_ne_deny {st : Stage} {reason : String} : allow ≠ deny st reason := fun h => nomatch congrArg Decision.outcome h

theorem findSome?_congr {α β : Type} {l : List α} {f g : α → Option β} (h : ∀ a ∈ l, f a = g a) :
    l.findSome? f = l.findSome? g := by
  induction l with
  | nil => rfl
  | cons a l ih => rw [List.findSome?_cons, List.findSome?_cons, h a (.head l), ih fun b hb => h b (.tail a hb)]

omit [Rule R V] in
/-- A built-in rule challenges, and does not deny. -/
theorem runBuiltinRules_ne {st : Stage} {reason : String} : runBuiltinRules req ≠ some (deny st reason) := by
  unfold runBuiltinRules builtinAssuranceRule builtinRecentAuthRule
  split
  · rw [Option.none_or]
    intro h
    cases (Option.ite_none_right_eq_some.1 h).2
  · exact nofun

omit [Rule R V] in
theorem runBuiltinRules_or {st : Stage} {reason : String} {x : Option Decision} :
    (runBuiltinRules req).or x = some (deny st reason) ↔ runBuiltinRules req = none ∧ x = some (deny st reason) := by
  rw [Option.or_eq_some_iff]
  exact or_iff_right runBuiltinRules_ne

theorem laterStages_ne_scope {reason : String} : laterStages req scope ≠ some (deny .scope reason) :=
  fun h => (laterStages_stage h).2 rfl

theorem scope_ne_authentication {reason : String} :
    (evaluateScope req scope).or (laterStages req scope) ≠ some (deny .authentication reason) := by
  intro h
  rcases Option.or_eq_some_iff.1 h with hscope | ⟨-, hlater⟩
  · have hstage := (@evaluateStage_refuses R V _ req .scope scope _ (by decide) hscope).stage
    cases hstage
  · exact (laterStages_stage hlater).1 rfl

/-- Past the authentication, only the binding tells a pointer from a value. -/
theorem scope_alike_iff (hignores : ∀ rule, some rule ∈ req.rules → IgnoresPointer V rule) :
    ((evaluateScope (req.byPointer v) scope).or (laterStages (req.byPointer v) scope)).getD allow =
        ((evaluateScope (req.byValue v) scope).or (laterStages (req.byValue v) scope)).getD allow ↔
      v.Bound scope ∨ scopeMatches req.operation.scope scope = false ∨
        runProductRules (req.byValue v) .scope = some (deny .scope reasonPrincipalScopeMismatch) := by
  have hlater : laterStages (req.byPointer v) scope = laterStages (req.byValue v) scope :=
    findSome?_congr fun st hst => evaluateStage_byPointer hignores hst
  rw [hlater]
  cases hmatch : scopeMatches req.operation.scope scope with
  | false =>
    have hpointer := @evaluateScope_mismatch R V _ (req.byPointer v) scope hmatch
    have hvalue := @evaluateScope_mismatch R V _ (req.byValue v) scope hmatch
    rw [hpointer, hvalue]
    exact ⟨fun _ => .inr (.inl rfl), fun _ => rfl⟩
  | true =>
    have hrules : runProductRules (req.byPointer v) .scope = runProductRules (req.byValue v) .scope :=
      runRules_byPointer hignores
    rw [evaluateScope_byPointer hmatch, hrules]
    by_cases hbound : v.Bound scope
    · rw [evaluateScope_bound hmatch hbound]
      exact ⟨fun _ => .inl hbound, fun _ => rfl⟩
    · rw [evaluateScope_unbound hmatch hbound, Option.some_or, Option.getD_some,
        or_getD_eq laterStages_ne_scope allow_ne_deny]
      simp [hbound]

/-- The two decisions are the same exactly if no check is passed unseen. -/
theorem first_alike_iff (hignores : ∀ rule, some rule ∈ req.rules → IgnoresPointer V rule)
    (hmethod : v.authMethod = req.operation.authMethod) :
    (stages.findSome? (evaluateStage (req.byPointer v) scope)).getD allow =
        (stages.findSome? (evaluateStage (req.byValue v) scope)).getD allow ↔ req.SafeAsPointer v scope := by
  have hrules : runProductRules (req.byPointer v) .authentication = runProductRules (req.byValue v) .authentication :=
    runRules_byPointer hignores
  rw [findSome?_stages, findSome?_stages, evaluateAuthentication_byPointer hmethod, hrules]
  by_cases hactive : v.Active req.facts req.now
  · rw [evaluateAuthentication_active hmethod hactive]
    cases hauth : (runBuiltinRules req).or (runProductRules (req.byValue v) .authentication) with
    | some d =>
      have hdecided : runBuiltinRules req ≠ none ∨ runProductRules (req.byValue v) .authentication ≠ none := by
        rw [← not_and_or, ← Option.or_eq_none_iff, hauth]
        exact nofun
      exact ⟨fun _ => ⟨.inl hactive, .inr (hdecided.imp id .inl)⟩, fun _ => rfl⟩
    | none =>
      obtain ⟨hbuiltin, hproduct⟩ := Option.or_eq_none_iff.1 hauth
      rw [Option.none_or, Option.none_or, scope_alike_iff hignores]
      constructor
      · intro h
        exact ⟨.inl hactive, h.imp id fun h => .inr (.inr h)⟩
      · intro h
        rcases h.bound with hb | hb | hb | hb
        · exact .inl hb
        · exact absurd hbuiltin hb
        · exact absurd hproduct hb
        · exact .inr hb
  · rw [evaluateAuthentication_inactive hmethod hactive, Option.some_or, Option.getD_some,
      or_getD_eq scope_ne_authentication allow_ne_deny, runBuiltinRules_or]
    constructor
    · intro halike
      exact ⟨.inr halike, .inr (.inr (.inl (by simp [halike.2])))⟩
    · rintro ⟨hact | halike, -⟩
      · exact absurd hact hactive
      · exact halike

omit [Rule R V] in
theorem timed_byValue {clock : Instant} : (req.byValue v).timed clock = (req.timed clock).byValue v := by
  unfold Request.timed
  split <;> rfl

omit [Rule R V] in
theorem timed_byPointer {clock : Instant} : (req.byPointer v).timed clock = (req.timed clock).byPointer v := by
  unfold Request.timed
  split <;> rfl

omit [Rule R V] in
theorem timed_rules {clock : Instant} : (req.timed clock).rules = req.rules := by
  unfold Request.timed
  split <;> rfl

/-- Where the method is not accepted, the methods of the pointer say so, too. -/
theorem evaluateAuthentication_method (hmethod : v.authMethod ≠ req.operation.authMethod) :
    evaluateAuthentication (req.byPointer v) = some (deny .authentication reasonAuthMethodNotAllowed) ∧
      evaluateAuthentication (req.byValue v) = some (deny .authentication reasonAuthMethodNotAllowed) := by
  unfold evaluateAuthentication
  by_cases hnamed : req.operation.authMethod = .unauthenticated
  · simp [hnamed]
  · simp [hnamed, Principal.authMethod, hmethod]

/-- For rules that answer the same to a pointer and to a value: a principal is decided the
same both ways exactly if the request is not evaluated at all, or its method is not
accepted, or no check that only a value meets would have decided. -/
theorem pointer_alike_iff (clock : Instant) (hignores : ∀ rule, some rule ∈ req.rules → IgnoresPointer V rule) :
    evaluate clock (req.byPointer v) = evaluate clock (req.byValue v) ↔
      ∀ scope, req.scope = some scope → req.operation.operationID ≠ "" → v.authMethod = req.operation.authMethod →
        (req.timed clock).SafeAsPointer v scope := by
  by_cases hname : req.operation.operationID = ""
  · have hpointer := @evaluate_unnamed R V _ (req.byPointer v) clock hname
    have hvalue := @evaluate_unnamed R V _ (req.byValue v) clock hname
    exact ⟨fun _ _ _ hnamed => absurd hname hnamed, fun _ => hpointer.trans hvalue.symm⟩
  cases hscope : req.scope with
  | none =>
    have hpointer := @evaluate_unscoped R V _ (req.byPointer v) clock hscope
    have hvalue := @evaluate_unscoped R V _ (req.byValue v) clock hscope
    exact ⟨fun _ => nofun, fun _ => hpointer.trans hvalue.symm⟩
  | some scope =>
    have hpointer := @evaluate_eq R V _ (req.byPointer v) scope clock hscope hname
    have hvalue := @evaluate_eq R V _ (req.byValue v) scope clock hscope hname
    rw [hpointer, hvalue, timed_byPointer, timed_byValue]
    by_cases hmethod : v.authMethod = req.operation.authMethod
    · have hmethod' : v.authMethod = (req.timed clock).operation.authMethod := by
        rw [Request.timed_operation, hmethod]
      rw [← @timed_rules R V req clock] at hignores
      rw [first_alike_iff hignores hmethod']
      constructor
      · rintro h scope' ⟨⟩ - -
        exact h
      · intro h
        exact h scope rfl hname hmethod
    · have hmethod' : v.authMethod ≠ (req.timed clock).operation.authMethod := by
        rw [Request.timed_operation]
        exact hmethod
      obtain ⟨hp, hv⟩ := evaluateAuthentication_method hmethod'
      rw [findSome?_stages, findSome?_stages, hp, hv]
      exact ⟨fun _ _ _ _ h => absurd h hmethod, fun _ => rfl⟩

end

/-! ## An expired session by pointer -/

/-- A session that is past both of its ends. -/
def expired : PrincipalValue := .session { manager with absoluteExpiry := 10 * second, idleExpiry := 10 * second }

theorem manageRequest_ignoresPointer (rule : FixedRule) (h : some rule ∈ manageRequest.rules) :
    IgnoresPointer Unit rule := (List.not_mem_nil h).elim

theorem pointer_alike_iff_manager :
    evaluate 0 (manageRequest.byPointer (.session manager)) = evaluate 0 (manageRequest.byValue (.session manager)) := by
  refine (pointer_alike_iff 0 manageRequest_ignoresPointer).2 fun scope _ _ _ => ?_
  have hactive : (PrincipalValue.session manager).Active (manageRequest.timed 0).facts (manageRequest.timed 0).now :=
    ⟨rfl, rfl, by decide, by decide⟩
  have hbound : (PrincipalValue.session manager).Bound scope := fun b hb => (Option.not_mem_none b hb).elim
  exact ⟨.inl hactive, .inl hbound⟩

/-- A pointer to an expired session is allowed what the session is denied. -/
theorem expired_pointer_allowed : ¬ ∀ (req : Request FixedRule Unit) (v : PrincipalValue),
    (∀ rule, some rule ∈ req.rules → IgnoresPointer Unit rule) →
      evaluate 0 (req.byPointer v) = evaluate 0 (req.byValue v) := by
  intro h
  have hpointer : (evaluate 0 (manageRequest.byPointer expired)).outcome = .allow := by decide
  have hvalue : evaluate 0 (manageRequest.byValue expired) = deny .authentication reasonSessionInactive := by
    decide
  have halike := h manageRequest expired manageRequest_ignoresPointer
  have hdenied := hpointer.symm.trans (congrArg Decision.outcome (halike.trans hvalue))
  cases hdenied

end Ploykit.Authorization

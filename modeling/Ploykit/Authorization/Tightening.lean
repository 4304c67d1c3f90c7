import Ploykit.Authorization.Decisions

/-!
# Rules only tighten

A stage has a check of its own, which no rule of the product can see or change, and
then asks the rules. A rule is given the request with the list that it is itself on, so
what is said of two lists is said of rules that do not look at the list.
-/

namespace Ploykit.Authorization

section

variable {R V : Type} [Rule R V] {req : Request R V} {st : Stage} {scope : Scope}

/-! ## The two halves of a stage -/

abbrev Request.withRules (req : Request R V) (rules : List (Option R)) : Request R V :=
  { req with rules := rules }

/-- The check of a stage without the rules of the product. -/
def ownCheck (req : Request R V) (scope : Scope) (st : Stage) : Option Decision :=
  evaluateStage (req.withRules []) scope st

/-- The rules of the product that a stage asks. -/
def productCheck (req : Request R V) (st : Stage) : Option Decision :=
  if st = .authentication ∧ req.operation.authMethod = .unauthenticated then none
  else runProductRules req st

theorem ite_some_or {c : Prop} [Decidable c] {d : Decision} {own product rest : Option Decision}
    (h : rest = own.or product) :
    (if c then some d else rest) = (if c then some d else own).or product := by
  split
  · rfl
  · exact h

theorem evaluateAuthentication_or : evaluateAuthentication req =
    (ownCheck req scope .authentication).or (productCheck req .authentication) := by
  unfold ownCheck evaluateStage productCheck evaluateAuthentication
  by_cases hmethod : req.operation.authMethod = .unauthenticated
  · simp only [hmethod, and_self, if_true, Option.or_none]
  rw [if_neg hmethod, if_neg hmethod, if_neg fun h => hmethod h.2]
  cases hp : req.principal with
  | none => rfl
  | some principal =>
    refine ite_some_or (ite_some_or (ite_some_or ?_))
    -- with no rules the loop over them is done at once
    have hbare : runProductRules (req.withRules []) .authentication = none := rfl
    rw [hbare, Option.or_none]
    rfl

theorem evaluateRole_or : evaluateRole req = (ownCheck req scope .role).or (runProductRules req .role) := by
  unfold ownCheck evaluateStage evaluateRole
  cases hscope : req.operation.scope with
  | workspacePath => exact ite_some_or rfl
  | projectGovernance => exact ite_some_or rfl
  | projectPath => exact ite_some_or rfl
  | projectCredential => exact ite_some_or rfl
  | platform => rfl
  | other name => rfl

/-- A stage is its own check and then the rules. -/
theorem evaluateStage_or (hst : st ∈ stages) :
    evaluateStage req scope st = (ownCheck req scope st).or (productCheck req st) := by
  simp only [stages, List.mem_cons, List.not_mem_nil, or_false] at hst
  rcases hst with rfl | rfl | rfl | rfl | rfl | rfl
  · exact evaluateAuthentication_or
  · exact ite_some_or (ite_some_or rfl)
  · exact ite_some_or (ite_some_or (ite_some_or rfl))
  · exact evaluateRole_or
  · rfl
  · exact ite_some_or rfl

theorem productCheck_eq_none : productCheck req st = none ↔
    (st = .authentication → req.operation.authMethod ≠ .unauthenticated) → req.RulesPass st := by
  unfold productCheck
  split
  · rename_i h
    exact ⟨fun _ hasked => absurd h.2 (hasked h.1), fun _ => rfl⟩
  · rename_i h
    rw [runProductRules_eq_none]
    exact ⟨fun hpass _ => hpass, fun hpass => hpass fun hauth hmethod => h ⟨hauth, hmethod⟩⟩

/-! ## Two lists of rules -/

/-- The rule answers the same whatever rules the request carries. -/
def IgnoresRules (V : Type) [Rule R V] (rule : R) : Prop :=
  ∀ (req : Request R V) (rules : List (Option R)),
    Rule.evaluate rule (req.withRules rules) = Rule.evaluate rule req

variable {rules rules' : List (Option R)}

theorem rulesPass_mono (hignores : ∀ rule, some rule ∈ rules → IgnoresRules V rule) (hsub : rules ⊆ rules')
    (hpass : (req.withRules rules').RulesPass st) : (req.withRules rules).RulesPass st := by
  intro rule hrule hstage d hd
  have hignore := hignores rule hrule
  rw [hignore req rules, ← hignore req rules'] at hd
  exact hpass rule (hsub hrule) hstage d hd

/-- Stage by stage, what passes with more rules passes with fewer. -/
theorem evaluateStage_mono (hignores : ∀ rule, some rule ∈ rules → IgnoresRules V rule) (hsub : rules ⊆ rules')
    (hst : st ∈ stages) (h : evaluateStage (req.withRules rules') scope st = none) :
    evaluateStage (req.withRules rules) scope st = none := by
  rw [evaluateStage_or hst, Option.or_eq_none_iff, productCheck_eq_none] at h ⊢
  obtain ⟨hown, hproduct⟩ := h
  exact ⟨hown, fun hasked => rulesPass_mono hignores hsub (hproduct hasked)⟩

omit [Rule R V] in
theorem timed_withRules {clock : Instant} :
    (req.withRules rules).timed clock = (req.timed clock).withRules rules := by
  unfold Request.timed
  split <;> rfl

/-- What is allowed has a scope and a name. -/
theorem evaluate_allow_scoped {clock : Instant} (h : (evaluate clock req).outcome = .allow) :
    (∃ scope, req.scope = some scope) ∧ req.operation.operationID ≠ "" := by
  cases hscope : req.scope with
  | none =>
    rw [evaluate_unscoped clock hscope] at h
    cases h
  | some scope =>
    refine ⟨⟨scope, rfl⟩, fun hname => ?_⟩
    rw [evaluate_unnamed clock hname] at h
    cases h

theorem evaluate_mono {clock : Instant} (hignores : ∀ rule, some rule ∈ rules → IgnoresRules V rule)
    (hsub : rules ⊆ rules') (h : (evaluate clock (req.withRules rules')).outcome = .allow) :
    (evaluate clock (req.withRules rules)).outcome = .allow := by
  obtain ⟨⟨scope, hscope⟩, hname⟩ := evaluate_allow_scoped h
  rw [evaluate_allow_iff clock hscope hname, timed_withRules] at h
  have hscope' : (req.withRules rules).scope = some scope := hscope
  rw [evaluate_allow_iff clock hscope' hname, timed_withRules]
  intro st hst
  exact evaluateStage_mono hignores hsub hst (h st hst)

/-- For rules that do not look at the list they are on: a list that has all the rules of
another allows no more, and a reordered list allows the same. And whatever the rules
are, they do not allow what is refused without them. -/
theorem rules_tighten (clock : Instant) (req : Request R V) :
    (∀ rules rules', (∀ rule, some rule ∈ rules → IgnoresRules V rule) → rules ⊆ rules' →
      (evaluate clock (req.withRules rules)).outcome ≠ .allow →
      (evaluate clock (req.withRules rules')).outcome ≠ .allow) ∧
    (∀ rules rules', (∀ rule, some rule ∈ rules → IgnoresRules V rule) → rules.Perm rules' →
      ((evaluate clock (req.withRules rules)).outcome = .allow ↔
        (evaluate clock (req.withRules rules')).outcome = .allow)) ∧
    (∀ rules, (evaluate clock (req.withRules [])).outcome ≠ .allow →
      (evaluate clock (req.withRules rules)).outcome ≠ .allow) := by
  refine ⟨fun rules rules' hignores hsub hrefused hallow => ?_, fun rules rules' hignores hperm => ?_,
    fun rules hrefused hallow => ?_⟩
  · exact hrefused (evaluate_mono hignores hsub hallow)
  · have hignores' : ∀ rule, some rule ∈ rules' → IgnoresRules V rule := fun rule h =>
      hignores rule (hperm.mem_iff.2 h)
    exact ⟨evaluate_mono hignores' hperm.symm.subset, evaluate_mono hignores hperm.subset⟩
  · exact hrefused (evaluate_mono (fun rule h => (List.not_mem_nil h).elim) (List.nil_subset rules) hallow)

end

/-! ## A rule that looks at the list -/

/-- The rule refuses a request whose only rule it is. -/
inductive LonelyRule where
  | lonely
  deriving DecidableEq, Repr

instance {V : Type} : Rule LonelyRule V where
  ruleName _ := "lonely"
  stage _ := .policy
  evaluate _ req := if req.rules.length = 1 then some (deny .policy "lonely") else none

/-- A request that every stage passes, with a list of rules to look at. -/
def lonelyRequest : Request LonelyRule Unit where
  operation := manage
  principal := manageRequest.principal
  scope := manageRequest.scope
  facts := manageRequest.facts
  now := manageRequest.now

/-- Repeating a rule can turn a refusal into an allowance. -/
theorem repeated_allows : ¬ ∀ (req : Request LonelyRule Unit) (rules rules' : List (Option LonelyRule)),
    rules ⊆ rules' → (evaluate 0 (req.withRules rules)).outcome ≠ .allow →
      (evaluate 0 (req.withRules rules')).outcome ≠ .allow := by
  intro h
  have hrefused : (evaluate 0 (lonelyRequest.withRules [some .lonely])).outcome ≠ .allow := by
    decide
  have hallow : (evaluate 0 (lonelyRequest.withRules [some .lonely, some .lonely])).outcome = .allow := by
    decide
  exact h lonelyRequest [some .lonely] [some .lonely, some .lonely] (by simp) hrefused hallow

end Ploykit.Authorization

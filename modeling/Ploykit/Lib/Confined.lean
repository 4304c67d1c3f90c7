import Ploykit.Lib.Procedure

/-!
# Confined procedures

A procedure is confined to an invariant of the shared state if each of its calls keeps it. What others
do between two calls belongs to the steps. The second part is the other way round: what an execution can reach.
-/

namespace Ploykit.Lib

universe u

variable {Op : Type → Type u} {σ α β E : Type} {Step : {β : Type} → Op β → σ → β → σ → Prop}

namespace Script

/-- In states with `I` each call keeps `I`, and where the script ends `Q` holds of its value. -/
def Confined (Step : {β : Type} → Op β → σ → β → σ → Prop) (I : σ → Prop) (Q : α → Prop) : Script Op α → Prop
  | ret a => Q a
  | call o k => ∀ s r s', I s → Step o s r s' → I s' ∧ (k r).Confined Step I Q

variable {I : σ → Prop} {Q R : α → Prop}

theorem Confined.mono {m : Script Op α} (h : m.Confined Step I Q) (hQR : ∀ a, Q a → R a) : m.Confined Step I R := by
  induction m with
  | ret a => exact hQR a h
  | call o k ih => exact fun s r s' hs hstep => ⟨(h s r s' hs hstep).1, ih r (h s r s' hs hstep).2⟩

theorem confined_bind {m : Script Op β} {f : β → Script Op α} (h : m.Confined Step I fun b => (f b).Confined Step I Q) :
    (m.bind f).Confined Step I Q := by
  induction m with
  | ret b => exact h
  | call o k ih => exact fun s r s' hs hstep => ⟨(h s r s' hs hstep).1, ih r (h s r s' hs hstep).2⟩

theorem Confined.path {m n : Script Op α} {s s' : σ} (h : m.Confined Step I Q) (hp : Path Step m s n s') (hs : I s) : I s' := by
  induction hp with
  | refl => exact hs
  | step hstep _ ih => exact ih (h _ _ _ hs hstep).2 (h _ _ _ hs hstep).1

theorem Path.bind {m n : Script Op β} {s s' : σ} (h : Path Step m s n s') (f : β → Script Op α) :
    Path Step (m.bind f) s (n.bind f) s' := by
  induction h with
  | refl m s => exact .refl _ _
  | step hstep _ ih => exact .step hstep ih

end Script

namespace Proc

/-! ## Invariants -/

section confined

variable {I : σ → Prop} {Q : α → Prop}

/-- What holds where the procedure returns. -/
def Returned (Q : α → Prop) : Except E α → Prop
  | .ok a => Q a
  | .error _ => True

/-- The procedure is confined to `I`, and returns with `Q`. -/
def Confined (Step : {β : Type} → Op β → σ → β → σ → Prop) (I : σ → Prop) (m : Proc Op E α) (Q : α → Prop) : Prop :=
  m.run.Confined Step I (Returned Q)

theorem Confined.path {m : Proc Op E α} {n : Script Op (Except E α)} {s s' : σ} (h : Confined Step I m Q)
    (hp : m.run.Path Step s n s') (hs : I s) : I s' := Script.Confined.path h hp hs

theorem confined_pure {a : α} (h : Q a) : Confined Step I (pure a : Proc Op E α) Q := h

theorem confined_throw {e : E} : Confined Step I (throw e : Proc Op E α) Q := trivial

theorem confined_bind {R : β → Prop} {m : Proc Op E β} {f : β → Proc Op E α} (h : Confined Step I m R)
    (hf : ∀ b, R b → Confined Step I (f b) Q) : Confined Step I (m >>= f) Q := by
  refine Script.confined_bind (Script.Confined.mono h fun r hr => ?_)
  cases r with
  | ok b => exact hf b hr
  | error e => trivial

theorem confined_ite {c : Prop} [Decidable c] {m m' : Proc Op E α} (h : c → Confined Step I m Q)
    (h' : ¬ c → Confined Step I m' Q) : Confined Step I (if c then m else m') Q := by
  split
  · exact h ‹_›
  · exact h' ‹_›

theorem confined_ask {o : Op α} (h : ∀ s r s', I s → Step o s r s' → I s' ∧ Q r) : Confined Step I (ask o : Proc Op E α) Q := h

theorem confined_attempt {o : Op (Except E α)}
    (h : ∀ s r s', I s → Step o s r s' → I s' ∧ ∀ a, r = .ok a → Q a) : Confined Step I (attempt o) Q := by
  intro s r s' hs hstep
  obtain ⟨hkept, hr⟩ := h s r s' hs hstep
  refine ⟨hkept, ?_⟩
  cases r with
  | ok a => exact hr a rfl
  | error e => trivial

-- else every step of a proof would run the procedure
attribute [irreducible] Confined

end confined

/-! ## Executions -/

section visits

variable {P : σ → Prop} {s s' s'' : σ} {a : α} {b : β}

/-- An execution of the procedure comes through a state with `P`. -/
def Visits (Step : {β : Type} → Op β → σ → β → σ → Prop) (m : Proc Op E α) (s : σ) (P : σ → Prop) : Prop :=
  ∃ n s', m.run.Path Step s n s' ∧ P s'

/-- An execution of the procedure returns the value. -/
def Reaches (Step : {β : Type} → Op β → σ → β → σ → Prop) (m : Proc Op E α) (s : σ) (a : α) (s' : σ) : Prop :=
  m.run.Path Step s (.ret (.ok a)) s'

theorem reaches_pure : Reaches Step (pure a : Proc Op E α) s a s := .refl _ _

theorem reaches_ask {o : Op α} (h : Step o s a s') : Reaches Step (ask o : Proc Op E α) s a s' := .step h (.refl _ _)

theorem reaches_attempt {o : Op (Except E α)} (h : Step o s (.ok a) s') : Reaches Step (attempt o) s a s' :=
  .step h (.refl _ _)

theorem Reaches.bind {m : Proc Op E β} {f : β → Proc Op E α} (h : Reaches Step m s b s')
    (h' : Reaches Step (f b) s' a s'') : Reaches Step (m >>= f) s a s'' := (Script.Path.bind h _).trans h'

theorem visits_bind_left {m : Proc Op E β} {f : β → Proc Op E α} (h : Visits Step m s P) : Visits Step (m >>= f) s P := by
  obtain ⟨n, s', hp, hs⟩ := h
  exact ⟨_, s', hp.bind _, hs⟩

theorem Reaches.visits_bind {m : Proc Op E β} {f : β → Proc Op E α} (h : Reaches Step m s b s') (h' : Visits Step (f b) s' P) :
    Visits Step (m >>= f) s P := by
  obtain ⟨n, s'', hp, hs⟩ := h'
  exact ⟨n, s'', (Script.Path.bind h _).trans hp, hs⟩

theorem visits_ask {o : Op α} (h : Step o s a s') (hs : P s') : Visits Step (ask o : Proc Op E α) s P :=
  ⟨_, s', .step h (.refl _ _), hs⟩

theorem visits_attempt {o : Op (Except E α)} {r : Except E α} (h : Step o s r s') (hs : P s') : Visits Step (attempt o) s P :=
  ⟨_, s', .step h (.refl _ _), hs⟩

/-- A confined procedure visits no state outside. -/
theorem Confined.not_visits {I : σ → Prop} {Q : α → Prop} {m : Proc Op E α} (h : Confined Step I m Q) (hs : I s) :
    ¬ Visits Step m s fun s => ¬ I s := by
  rintro ⟨n, s', hp, hout⟩
  exact hout (h.path hp hs)

-- as above
attribute [irreducible] Visits Reaches

end visits

/-! ## Executions to the end -/

section leads

variable {σ F : Type} {Step : {β : Type} → Op β → σ → β → σ → Prop} {s s' s'' : σ} {r : Except E α} {b : β}

/-- An execution of the procedure ends in `r`, by returning or by failing. -/
def Leads (Step : {β : Type} → Op β → σ → β → σ → Prop) (m : Proc Op E α) (s : σ) (r : Except E α) (s' : σ) : Prop :=
  m.run.Path Step s (.ret r) s'

theorem Leads.path {m : Proc Op E α} (h : Leads Step m s r s') : m.run.Path Step s (.ret r) s' := h

theorem leads_pure {a : α} : Leads Step (pure a : Proc Op E α) s (.ok a) s := .refl _ _

theorem leads_perform {wrap : F → E} {o : Op (Except F α)} {r : Except F α} (h : Step o s r s') :
    Leads Step (perform wrap o) s (r.mapError wrap) s' := .step h (.refl _ _)

theorem Leads.bind {m : Proc Op E β} {f : β → Proc Op E α} (h : Leads Step m s (.ok b) s') (h' : Leads Step (f b) s' r s'') :
    Leads Step (m >>= f) s r s'' := (Script.Path.bind h _).trans h'

theorem Leads.bind_error {e : E} {m : Proc Op E β} {f : β → Proc Op E α} (h : Leads Step m s (.error e) s') :
    Leads Step (m >>= f) s (.error e) s' := (Script.Path.bind h _).trans (.refl _ _)

theorem Leads.wrapping {wrap : F → E} {m : Proc Op F α} {r : Except F α} (h : Leads Step m s r s') :
    Leads Step (wrapping wrap m) s (r.mapError wrap) s' := (Script.Path.bind h _).trans (.refl _ _)

theorem Leads.deferring {o : Op β} {m : Proc Op E α} (h : Leads Step m s r s') (ho : Step o s' b s'') :
    Leads Step (deferring o m) s r s'' := (Script.Path.bind h _).trans (.step ho (.refl _ _))

attribute [irreducible] Leads

end leads

end Proc

end Ploykit.Lib

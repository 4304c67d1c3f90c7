import Mathlib.Data.List.Induction

/-!
# Traces

A system takes a step for each event that is possible in its state. A trace is the list of the
events of a run all of whose steps meet a condition on the state before the step.
-/

namespace Ploykit.Lib

variable {S E : Type}

inductive Trace (step : S → E → Option S) (ok : S → E → Prop) (s₀ : S) : List E → S → Prop
  | start : Trace step ok s₀ [] s₀
  | next {es : List E} {e : E} {s s' : S} (h : Trace step ok s₀ es s) (hok : ok s e) (hs : step s e = some s') :
      Trace step ok s₀ (es ++ [e]) s'

namespace Trace

variable {step : S → E → Option S} {ok ok' : S → E → Prop} {s₀ s : S} {es : List E}

/-- What holds at the start and is kept by every step of a run holds at its end. -/
theorem invariant {P : List E → S → Prop} (hstart : P [] s₀)
    (hstep : ∀ {es e s s'}, Trace step ok s₀ es s → P es s → ok s e → step s e = some s' → P (es ++ [e]) s') (h : Trace step ok s₀ es s) :
    P es s := by
  induction h with
  | start => exact hstart
  | next h hok hs ih => exact hstep h ih hok hs

/-- A run that is played from the list of its events. -/
theorem play (hok : ∀ s e, ok s e) (h : es.foldlM step s₀ = some s) : Trace step ok s₀ es s := by
  induction es using List.reverseRecOn generalizing s with
  | nil => exact Option.some.inj h ▸ .start
  | append_singleton es e ih =>
    rw [List.foldlM_append] at h
    obtain ⟨t, ht, hs⟩ := Option.bind_eq_some_iff.1 h
    rw [List.foldlM_cons] at hs
    exact (ih ht).next (hok t e) (by simpa using hs)

end Trace

end Ploykit.Lib

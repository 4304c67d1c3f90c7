import Mathlib.Logic.Function.Basic

/-!
# Tickets

A ticket is spent by the session that takes it, in one step that fails where it is spent
already. The session holds it until it is used. What is used is not held any more, and
what is held is held by one session: so a ticket is used once.
-/

namespace Ploykit.Lib

variable {ι : Type*}

/-- Which tickets are spent, and which of them have been used or are held by whom. -/
structure Tickets (spent used : ι → Prop) (held : Nat → Option ι) : Prop where
  used : ∀ n, used n → spent n ∧ ∀ i, held i ≠ some n
  spent : ∀ i n, held i = some n → spent n
  alone : ∀ i j n, held i = some n → held j = some n → i = j

namespace Tickets

variable {spent spent' used used' : ι → Prop} {held held' : Nat → Option ι} {i : Nat} {n : ι}

theorem unused (spent : ι → Prop) : Tickets spent (fun _ => False) fun _ => none :=
  ⟨fun _ h => h.elim, fun _ _ h => (nomatch h), fun _ _ _ h => (nomatch h)⟩

/-- More is spent, less is held, and no more is used. -/
theorem mono (h : Tickets spent used held) (hspent : ∀ n, spent n → spent' n) (hused : ∀ n, used' n → used n)
    (hheld : ∀ i n, held' i = some n → held i = some n) : Tickets spent' used' held' where
  used n hn := by
    obtain ⟨hn, hfree⟩ := h.used n (hused n hn)
    exact ⟨hspent n hn, fun i hi => hfree i (hheld i n hi)⟩
  spent i n hi := hspent n (h.spent i n (hheld i n hi))
  alone i j n hi hj := h.alone i j n (hheld i n hi) (hheld j n hj)

/-- What one session holds afterwards is new, or was held by another. -/
theorem update_cases {o : Option ι} {j : Nat} (h : Function.update held i o j = some n) :
    (j = i ∧ o = some n) ∨ (j ≠ i ∧ held j = some n) := by
  cases hj : decide (j = i) with
  | true =>
    cases of_decide_eq_true hj
    exact .inl ⟨rfl, by simpa using h⟩
  | false =>
    have hne : j ≠ i := of_decide_eq_false hj
    exact .inr ⟨hne, by simpa [Function.update_of_ne hne] using h⟩

/-- A session drops what it holds. -/
theorem drop (h : Tickets spent used held) (i : Nat) : Tickets spent used (Function.update held i none) := by
  refine h.mono (fun _ hn => hn) (fun _ hn => hn) fun j n hj => ?_
  rcases update_cases hj with ⟨-, hnone⟩ | ⟨-, hheld⟩
  · cases hnone
  · exact hheld

/-- What was not spent is held by whoever spends it. -/
theorem take (h : Tickets spent used held) (hnew : ¬ spent n) (hspent : ∀ n, spent n → spent' n) (hn : spent' n) :
    Tickets spent' used (Function.update held i (some n)) := by
  -- the others hold what was spent before
  have hother : ∀ j m, held j = some m → m ≠ n := by
    intro j m hj hm
    exact hnew (hm ▸ h.spent j m hj)
  constructor
  · intro m hm
    obtain ⟨hspentm, hfree⟩ := h.used m hm
    refine ⟨hspent m hspentm, fun j hj => ?_⟩
    rcases update_cases hj with ⟨-, hsame⟩ | ⟨-, hheld⟩
    · cases hsame
      exact hnew hspentm
    · exact hfree j hheld
  · intro j m hj
    rcases update_cases hj with ⟨-, hsame⟩ | ⟨-, hheld⟩
    · cases hsame
      exact hn
    · exact hspent m (h.spent j m hheld)
  · intro j k m hj hk
    rcases update_cases hj with ⟨hji, hsame⟩ | ⟨-, hj⟩
    · cases hsame
      rcases update_cases hk with ⟨hki, -⟩ | ⟨-, hk⟩
      · exact hji.trans hki.symm
      · exact absurd rfl (hother k n hk)
    · rcases update_cases hk with ⟨-, hsame⟩ | ⟨-, hk⟩
      · cases hsame
        exact absurd rfl (hother j n hj)
      · exact h.alone j k m hj hk

/-- What is held has not been used. -/
theorem fresh (h : Tickets spent used held) (hi : held i = some n) : ¬ used n := fun hn => (h.used n hn).2 i hi

/-- Whoever holds a ticket uses it. -/
theorem use (h : Tickets spent used held) (hi : held i = some n) (hused : ∀ m, used' m → m = n ∨ used m) :
    Tickets spent used' (Function.update held i none) := by
  refine ⟨fun m hm => ?_, (h.drop i).spent, (h.drop i).alone⟩
  rcases hused m hm with rfl | hm
  · refine ⟨h.spent i m hi, fun j hj => ?_⟩
    rcases update_cases hj with ⟨-, hnone⟩ | ⟨hne, hheld⟩
    · cases hnone
    · exact hne (h.alone j i m hheld hi)
  · exact (h.drop i).used m hm

end Tickets

end Ploykit.Lib

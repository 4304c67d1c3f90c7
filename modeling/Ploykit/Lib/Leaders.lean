import Mathlib.Data.List.MinMax
import Mathlib.Data.Prod.Lex

/-!
# Leaders

A scan that keeps the first of the best elements that pass a test finds `List.argmax` of the
filtered list. The elements of a list are ranked by their value, those of one value by
which comes first. Two tests have one leader exactly where every element that only one
of them lets through ranks behind one that both do.
-/

namespace Ploykit.Lib

variable {α β γ : Type*} [LinearOrder β]

/-! ## Scans -/

/-- A scan of what is made of the elements is one of the elements. -/
theorem argmax_filterMap {f : α → Option γ} {g : γ → β} {h : α → β} (l : List α) (hg : ∀ a ∈ l, ∀ c ∈ f a, g c = h a) :
    (l.filterMap f).argmax g = ((l.filter fun a => (f a).isSome).argmax h).bind f := by
  induction l with
  | nil => rfl
  | cons a l ih =>
    obtain ⟨ha, hl⟩ := List.forall_mem_cons.1 hg
    have ih := ih hl
    cases hfa : f a with
    | none => rw [List.filterMap_cons_none hfa, List.filter_cons_of_neg (by simp [hfa]), ih]
    | some c =>
      have hc : g c = h a := ha c hfa
      rw [List.filterMap_cons_some hfa, List.filter_cons_of_pos (by simp [hfa]), List.argmax_cons, List.argmax_cons, ih]
      cases hm : (l.filter fun a => (f a).isSome).argmax h with
      | none => exact hfa.symm
      | some m =>
        obtain ⟨hml, hsome⟩ := List.mem_filter.1 (List.argmax_mem hm)
        obtain ⟨d, hd⟩ := Option.isSome_iff_exists.1 hsome
        have hmd : g d = h m := hl m hml d hd
        simp only [Option.bind_some, hd, hc, hmd]
        split
        · exact hd.symm
        · exact hfa.symm

/-- Only the order of the values matters. -/
theorem argmax_congr {δ : Type*} [LinearOrder δ] {g : α → β} {h : α → δ} {l : List α}
    (hlt : ∀ a ∈ l, ∀ b ∈ l, g a < g b ↔ h a < h b) : l.argmax g = l.argmax h := by
  induction l with
  | nil => rfl
  | cons a l ih =>
    have ih := ih fun b hb c hc => hlt b (List.mem_cons_of_mem a hb) c (List.mem_cons_of_mem a hc)
    rw [List.argmax_cons, List.argmax_cons, ih]
    cases hm : l.argmax h with
    | none => rfl
    | some m =>
      have hml : m ∈ a :: l := List.mem_cons_of_mem a (List.argmax_mem hm)
      simp only [hlt a List.mem_cons_self m hml]

/-- The first of those that nothing exceeds. -/
theorem mem_argmax_of_find [DecidableEq α] {g : α → β} {q : α → Bool} {l : List α} {m : α} (hm : l.find? q = some m)
    (hbest : ∀ a ∈ l, g a ≤ g m) (hq : ∀ a ∈ l, g m ≤ g a → q a) : m ∈ l.argmax g := by
  refine List.mem_argmax_iff.2 ⟨List.mem_of_find?_eq_some hm, hbest, fun a ha hle => ?_⟩
  have hqa : q a := hq a ha hle
  clear hbest hq
  induction l with
  | nil => cases ha
  | cons b l ih =>
    cases hqb : q b with
    | true =>
      rw [List.find?_cons_of_pos hqb] at hm
      cases hm
      rw [List.idxOf_cons_self]
      exact Nat.zero_le _
    | false =>
      rw [List.find?_cons_of_neg (by simp [hqb])] at hm
      have hbm : b ≠ m := by
        rintro rfl
        exact absurd (List.find?_some hm) (by simp [hqb])
      have hba : b ≠ a := by
        rintro rfl
        exact absurd hqa (by simp [hqb])
      rw [List.idxOf_cons_ne _ hbm, List.idxOf_cons_ne _ hba]
      exact Nat.succ_le_succ (ih hm ((List.mem_cons.1 ha).resolve_left hba.symm))

/-! ## Ranks -/

variable [DecidableEq α] {l : List α} {g : α → β} {a b m : α} {S P : α → Bool}

/-- The value of the element, and how early it comes. -/
def rank (l : List α) (g : α → β) (a : α) : β ×ₗ ℕᵒᵈ := toLex (g a, .toDual (l.idxOf a))

theorem rank_le_iff : rank l g a ≤ rank l g b ↔ g a < g b ∨ g a = g b ∧ l.idxOf b ≤ l.idxOf a := Prod.Lex.toLex_le_toLex

omit [LinearOrder β] in
theorem rank_inj (ha : a ∈ l) (h : rank l g a = rank l g b) : a = b := by
  have hidx := congrArg (fun x => OrderDual.ofDual (ofLex x).2) h
  exact (List.idxOf_inj ha).1 hidx

/-- A test leaves the elements in their order. -/
theorem idxOf_filter_le (hS : S a) (hS' : S b) (ha : a ∈ l) : (l.filter S).idxOf a ≤ (l.filter S).idxOf b ↔ l.idxOf a ≤ l.idxOf b := by
  induction l with
  | nil => cases ha
  | cons c l ih =>
    cases hca : decide (c = a) with
    | true =>
      cases of_decide_eq_true hca
      rw [List.filter_cons_of_pos hS, List.idxOf_cons_self, List.idxOf_cons_self]
      exact iff_of_true (Nat.zero_le _) (Nat.zero_le _)
    | false =>
      have hca : c ≠ a := of_decide_eq_false hca
      have ha : a ∈ l := (List.mem_cons.1 ha).resolve_left hca.symm
      cases hcb : decide (c = b) with
      | true =>
        cases of_decide_eq_true hcb
        rw [List.filter_cons_of_pos hS', List.idxOf_cons_self, List.idxOf_cons_self, List.idxOf_cons_ne _ hca, List.idxOf_cons_ne _ hca]
        exact iff_of_false (Nat.not_succ_le_zero _) (Nat.not_succ_le_zero _)
      | false =>
        have hcb : c ≠ b := of_decide_eq_false hcb
        rw [List.idxOf_cons_ne _ hca, List.idxOf_cons_ne _ hcb, Nat.succ_le_succ_iff, ← ih ha, List.filter_cons]
        split
        · rw [List.idxOf_cons_ne _ hca, List.idxOf_cons_ne _ hcb, Nat.succ_le_succ_iff]
        · rfl

/-- The first best is the one that ranks highest. -/
theorem mem_argmax_filter : m ∈ (l.filter S).argmax g ↔ m ∈ l ∧ S m ∧ ∀ a ∈ l, S a → rank l g a ≤ rank l g m := by
  rw [List.mem_argmax_iff, List.mem_filter, and_assoc]
  refine and_congr_right fun hm => and_congr_right fun hSm => ?_
  simp only [List.mem_filter, and_imp, rank_le_iff]
  constructor
  · rintro ⟨hle, hfirst⟩ a ha hSa
    cases (hle a ha hSa).lt_or_eq with
    | inl hlt => exact .inl hlt
    | inr heq => exact .inr ⟨heq, (idxOf_filter_le hSm hSa hm).1 (hfirst a ha hSa heq.ge)⟩
  · intro h
    refine ⟨fun a ha hSa => ?_, fun a ha hSa hge => (idxOf_filter_le hSm hSa hm).2 ?_⟩
    · cases h a ha hSa with
      | inl hlt => exact hlt.le
      | inr heq => exact heq.1.le
    · cases h a ha hSa with
      | inl hlt => exact absurd hlt (not_lt.2 hge)
      | inr heq => exact heq.2

/-- What leads under one test leads under the other exactly where no element that only one of them lets through is ahead
of those that both do. -/
theorem leader_agrees (hm : m ∈ (l.filter S).argmax g) : m ∈ (l.filter P).argmax g ↔
    ∀ a ∈ l, S a ≠ P a → ∃ b ∈ l, S b ∧ P b ∧ rank l g a < rank l g b := by
  obtain ⟨hml, hSm, hbest⟩ := mem_argmax_filter.1 hm
  constructor
  · intro hm' a ha hne
    obtain ⟨-, hPm, hbest'⟩ := mem_argmax_filter.1 hm'
    have hle : rank l g a ≤ rank l g m := by
      cases hSa : S a with
      | true => exact hbest a ha hSa
      | false => exact hbest' a ha (Bool.not_eq_false _ ▸ fun hPa => hne (hSa.trans hPa.symm))
    refine ⟨m, hml, hSm, hPm, hle.lt_of_ne fun heq => hne ?_⟩
    rw [rank_inj ha heq, hSm, hPm]
  · intro h
    -- the highest of all that either test lets through
    have hsome : (l.filter fun a => S a || P a).argmax g ≠ none := by
      rw [Ne, List.argmax_eq_none]
      exact List.ne_nil_of_mem (List.mem_filter.2 ⟨hml, by simp [hSm]⟩)
    obtain ⟨t, ht⟩ := Option.ne_none_iff_exists'.1 hsome
    obtain ⟨htl, hSP, hhighest⟩ := mem_argmax_filter.1 ht
    have hboth : S t = P t := not_not.1 fun hne => by
      obtain ⟨b, hb, hSb, -, hlt⟩ := h t htl hne
      exact absurd (hhighest b hb (by simp [hSb])) (not_le.2 hlt)
    have hSt : S t := by simpa [← hboth] using hSP
    have htm : t = m := rank_inj htl ((hbest t htl hSt).antisymm (hhighest m hml (by simp [hSm])))
    exact mem_argmax_filter.2 ⟨hml, htm ▸ hboth ▸ hSt, fun a ha hPa => htm ▸ hhighest a ha (by simp [hPa])⟩

end Ploykit.Lib

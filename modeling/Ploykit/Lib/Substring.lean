import Mathlib.Data.List.Infix

/-!
# Substrings

The first position of a needle. A search of the text that has arrived so far finds it exactly
when all of the needle is there.
-/

namespace Ploykit.Lib

variable {α : Type} [DecidableEq α] {needle l l' : List α} {i : Nat}

def indexOf (needle : List α) : List α → Option Nat
  | [] => if needle = [] then some 0 else none
  | c :: l => if needle <+: c :: l then some 0 else (indexOf needle l).map (· + 1)

theorem indexOf_prefix (h : needle <+: l) : indexOf needle l = some 0 := by
  cases l with
  | nil => exact if_pos (List.prefix_nil.1 h)
  | cons c l => exact if_pos h

/-- Where it is found the needle stands. -/
theorem indexOf_spec (h : indexOf needle l = some i) : needle <+: l.drop i ∧ i + needle.length ≤ l.length := by
  induction l generalizing i with
  | nil =>
    rw [indexOf] at h
    split at h
    · rename_i hnil
      obtain rfl := Option.some.inj h
      subst hnil
      exact ⟨List.nil_prefix, Nat.le_refl _⟩
    · cases h
  | cons c l ih =>
    rw [indexOf] at h
    split at h
    · rename_i hhere
      obtain rfl := Option.some.inj h
      exact ⟨hhere, by simpa using hhere.length_le⟩
    · obtain ⟨j, hj, rfl⟩ := Option.map_eq_some_iff.1 h
      obtain ⟨hpre, hlength⟩ := ih hj
      refine ⟨hpre, ?_⟩
      rw [List.length_cons]
      omega

theorem indexOf_append (h : indexOf needle l = some i) : indexOf needle (l ++ l') = some i := by
  induction l generalizing i with
  | nil =>
    rw [indexOf] at h
    split at h
    · rename_i hnil
      obtain rfl := Option.some.inj h
      exact indexOf_prefix (hnil ▸ List.nil_prefix)
    · cases h
  | cons c l ih =>
    rw [indexOf] at h
    rw [List.cons_append, indexOf]
    split at h
    · rename_i hhere
      exact (if_pos (hhere.trans (List.prefix_append (c :: l) l'))).trans h
    · rename_i hnot
      obtain ⟨j, hj, rfl⟩ := Option.map_eq_some_iff.1 h
      have hlength := (indexOf_spec hj).2
      have hnot' : ¬ needle <+: c :: (l ++ l') := fun hhere =>
        hnot (List.prefix_of_prefix_length_le hhere (List.prefix_append (c :: l) l') (by rw [List.length_cons]; omega))
      rw [if_neg hnot', ih hj]
      rfl

/-- The needle is found in what has arrived exactly when it has arrived whole. -/
theorem indexOf_arrived (h : indexOf needle (l ++ l') = some i) :
    indexOf needle l = if i + needle.length ≤ l.length then some i else none := by
  cases hl : indexOf needle l with
  | some j =>
    have hij : j = i := Option.some.inj ((indexOf_append hl).symm.trans h)
    rw [if_pos (hij ▸ (indexOf_spec hl).2), hij]
  | none =>
    refine (if_neg fun hle => ?_).symm
    induction l generalizing i with
    | nil =>
      have hempty : needle = [] := List.eq_nil_of_length_eq_zero (by rw [List.length_nil] at hle; omega)
      rw [indexOf, if_pos hempty] at hl
      cases hl
    | cons c l ih =>
      rw [indexOf] at hl
      rw [List.cons_append, indexOf] at h
      split at hl
      · cases hl
      · rename_i hnot
        have hnot' : ¬ needle <+: c :: (l ++ l') := fun hhere =>
          hnot (List.prefix_of_prefix_length_le hhere (List.prefix_append (c :: l) l') (by rw [List.length_cons] at hle ⊢; omega))
        rw [if_neg hnot'] at h
        obtain ⟨j, hj, rfl⟩ := Option.map_eq_some_iff.1 h
        exact ih hj (Option.map_eq_none_iff.1 hl) (by rw [List.length_cons] at hle; omega)

end Ploykit.Lib

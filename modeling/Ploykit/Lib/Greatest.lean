import Mathlib.Data.List.Nodup
import Mathlib.Data.List.Perm.Subperm
import Mathlib.Order.Lattice

/-!
# The greatest elements

A list in descending order begins with its greatest elements. Another order of the same list
begins with them exactly when none that comes later is above one of its first.
-/

namespace Ploykit.Lib

variable {α β : Type} [LinearOrder β] {rank : α → β} {l l' : List α} {x y : α} {k : Nat}

theorem rank_lt_of_pairwise (h : l.Pairwise fun a b => rank b < rank a) (hx : x ∈ l.drop k) (hy : y ∈ l.take k) : rank x < rank y := by
  rw [← List.take_append_drop k l] at h
  exact (List.pairwise_append.1 h).2.2 y hy x hx

theorem perm_of_subset_of_length_le (hnodup : l.Nodup) (hsub : l ⊆ l') (hlength : l'.length ≤ l.length) : l'.Perm l :=
  ((hnodup.subperm hsub).perm_of_length_le hlength).symm

theorem take_perm_iff (hdesc : l.Pairwise fun a b => rank b < rank a) (hperm : l'.Perm l) :
    (l.take k).Perm (l'.take k) ↔ ∀ y ∈ l'.take k, ∀ x ∈ l'.drop k, rank x < rank y := by
  have hnodup : l.Nodup := hdesc.imp fun hab heq => absurd (heq ▸ hab) (lt_irrefl _)
  have hnodup' : l'.Nodup := hperm.nodup_iff.2 hnodup
  have hsplit : ∀ z ∈ l, z ∈ l.take k ∨ z ∈ l.drop k := fun z hz => List.mem_append.1 (by rwa [List.take_append_drop])
  constructor
  · intro htake y hy x hx
    have hapart : x ∉ l'.take k := fun hx' => List.disjoint_take_drop hnodup' (Nat.le_refl k) hx' hx
    have hx' : x ∈ l.drop k := (hsplit x (hperm.mem_iff.1 (List.mem_of_mem_drop hx))).resolve_left fun h => hapart (htake.mem_iff.1 h)
    exact rank_lt_of_pairwise hdesc hx' (htake.mem_iff.2 hy)
  · intro habove
    have hsub : l'.take k ⊆ l.take k := by
      intro y hy
      by_contra hnot
      have hdrop : y ∈ l.drop k := (hsplit y (hperm.mem_iff.1 (List.mem_of_mem_take hy))).resolve_left hnot
      -- what is above y is among the first of both lists, and y is one more
      have hfirst : y :: l.take k ⊆ l'.take k := by
        intro z hz
        rcases List.mem_cons.1 hz with rfl | hz
        · exact hy
        · have hz' : z ∈ l'.take k ∨ z ∈ l'.drop k :=
            List.mem_append.1 (by rw [List.take_append_drop]; exact hperm.mem_iff.2 (List.mem_of_mem_take hz))
          exact hz'.resolve_right fun h => lt_asymm (rank_lt_of_pairwise hdesc hdrop hz) (habove y hy z h)
      have hlength := ((List.nodup_cons.2 ⟨hnot, hnodup.sublist (List.take_sublist k l)⟩).subperm hfirst).length_le
      rw [List.length_cons, List.length_take, List.length_take, hperm.length_eq] at hlength
      omega
    refine perm_of_subset_of_length_le (hnodup'.sublist (List.take_sublist k l')) hsub (Nat.le_of_eq ?_)
    rw [List.length_take, List.length_take, hperm.length_eq]

end Ploykit.Lib

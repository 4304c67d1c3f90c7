import Mathlib.Algebra.Order.Group.Nat
import Mathlib.Data.Finset.Card

/-!
# Bundles

Each ticket is issued once, to one session. The session uses it or drops it. So there
are at most as many uses as tickets.
-/

namespace Ploykit.Lib

variable {ι : Type*}

/-- Which tickets are issued, which of them the sessions hold, and which have been used. -/
structure Bundles (issued : ι → Prop) (held : Nat → List ι) (used : List ι) : Prop where
  nodup : ∀ i, (held i).Nodup
  apart : ∀ i j t, t ∈ held i → t ∈ held j → i = j
  held_issued : ∀ i, ∀ t ∈ held i, issued t
  used_nodup : used.Nodup
  used_issued : ∀ t ∈ used, issued t
  unused : ∀ i, ∀ t ∈ held i, t ∉ used

namespace Bundles

variable {issued issued' : ι → Prop} {held held' : Nat → List ι} {used ts : List ι} {i : Nat} {t : ι}

theorem none (issued : ι → Prop) : Bundles issued (fun _ => []) [] where
  nodup _ := List.nodup_nil
  apart _ _ _ h := absurd h List.not_mem_nil
  held_issued _ _ h := absurd h List.not_mem_nil
  used_nodup := List.nodup_nil
  used_issued _ h := absurd h List.not_mem_nil
  unused _ _ h := absurd h List.not_mem_nil

theorem mem_update {j : Nat} (h : t ∈ Function.update held i ts j) : (j = i ∧ t ∈ ts) ∨ (j ≠ i ∧ t ∈ held j) := by
  cases hj : decide (j = i) with
  | true =>
    cases of_decide_eq_true hj
    exact .inl ⟨rfl, by simpa using h⟩
  | false =>
    have hne : j ≠ i := of_decide_eq_false hj
    exact .inr ⟨hne, by simpa [Function.update_of_ne hne] using h⟩

/-- A session holds less. -/
theorem shrink (h : Bundles issued held used) (hsub : ts.Sublist (held i)) :
    Bundles issued (Function.update held i ts) used where
  nodup := Function.forall_update_iff held (fun _ l => l.Nodup) |>.2 ⟨(h.nodup i).sublist hsub, fun j _ => h.nodup j⟩
  apart j k t hj hk := by
    have hmem : ∀ j, t ∈ Function.update held i ts j → t ∈ held j := fun j hj => by
      rcases mem_update hj with ⟨rfl, ht⟩ | ⟨-, ht⟩
      · exact hsub.subset ht
      · exact ht
    exact h.apart j k t (hmem j hj) (hmem k hk)
  held_issued := Function.forall_update_iff held (fun _ l => ∀ t ∈ l, issued t) |>.2
    ⟨fun t ht => h.held_issued i t (hsub.subset ht), fun j _ => h.held_issued j⟩
  used_nodup := h.used_nodup
  used_issued := h.used_issued
  unused := Function.forall_update_iff held (fun _ l => ∀ t ∈ l, t ∉ used) |>.2
    ⟨fun t ht => h.unused i t (hsub.subset ht), fun j _ => h.unused j⟩

/-- The first of what a session holds is used. -/
theorem use (h : Bundles issued held used) (hheld : held i = t :: ts) :
    Bundles issued (Function.update held i ts) (t :: used) := by
  have hsub : ts.Sublist (held i) := hheld ▸ List.sublist_cons_self t ts
  have hmem : t ∈ held i := hheld ▸ List.mem_cons_self
  have hless := h.shrink hsub
  refine ⟨hless.nodup, hless.apart, hless.held_issued, List.nodup_cons.2 ⟨h.unused i t hmem, h.used_nodup⟩, ?_, ?_⟩
  · intro u hu
    cases List.mem_cons.1 hu with
    | inl heq => exact heq ▸ h.held_issued i t hmem
    | inr hu => exact h.used_issued u hu
  · intro j u hu hused
    cases List.mem_cons.1 hused with
    | inr hused => exact hless.unused j u hu hused
    | inl heq =>
      subst heq
      rcases mem_update hu with ⟨-, hu⟩ | ⟨hne, hu⟩
      · exact (List.nodup_cons.1 (hheld ▸ h.nodup i)).1 hu
      · exact hne (h.apart j i u hu hmem)

/-- A session is issued a new bundle in the place of what it holds. -/
theorem issue (h : Bundles issued held used) (hold : ∀ t, issued t → issued' t) (hnodup : ts.Nodup)
    (hnew : ∀ t ∈ ts, issued' t ∧ ¬ issued t) : Bundles issued' (Function.update held i ts) used where
  nodup := Function.forall_update_iff held (fun _ l => l.Nodup) |>.2 ⟨hnodup, fun j _ => h.nodup j⟩
  apart j k t hj hk := by
    rcases mem_update hj with ⟨rfl, ht⟩ | ⟨-, ht⟩
    · rcases mem_update hk with ⟨rfl, -⟩ | ⟨-, ht'⟩
      · rfl
      · exact absurd (h.held_issued k t ht') (hnew t ht).2
    · rcases mem_update hk with ⟨rfl, ht'⟩ | ⟨-, ht'⟩
      · exact absurd (h.held_issued j t ht) (hnew t ht').2
      · exact h.apart j k t ht ht'
  held_issued := Function.forall_update_iff held (fun _ l => ∀ t ∈ l, issued' t) |>.2
    ⟨fun t ht => (hnew t ht).1, fun j _ t ht => hold t (h.held_issued j t ht)⟩
  used_nodup := h.used_nodup
  used_issued t ht := hold t (h.used_issued t ht)
  unused := Function.forall_update_iff held (fun _ l => ∀ t ∈ l, t ∉ used) |>.2
    ⟨fun t ht hused => (hnew t ht).2 (h.used_issued t hused), fun j _ => h.unused j⟩

theorem congr (h : Bundles issued held used) (hheld : ∀ j, held' j = held j) (hissued : ∀ t, issued t → issued' t) :
    Bundles issued' held' used := by
  obtain rfl : held' = held := funext hheld
  exact ⟨h.nodup, h.apart, fun i t ht => hissued t (h.held_issued i t ht), h.used_nodup, fun t ht => hissued t (h.used_issued t ht), h.unused⟩

/-- There are not more uses of one kind than tickets of it. -/
theorem countP_le (h : Bundles issued held used) {p : ι → Bool} {s : Finset ι} (hs : ∀ t ∈ used, p t → t ∈ s) :
    used.countP p ≤ s.card := by
  rw [List.countP_eq_length_filter]
  have hsub : (used.filter p).Subset s.toList := fun t ht => by
    obtain ⟨ht, hp⟩ := List.mem_filter.1 ht
    exact Finset.mem_toList.2 (hs t ht hp)
  have hle := ((h.used_nodup.filter p).subperm hsub).length_le
  rwa [Finset.length_toList] at hle

end Bundles

end Ploykit.Lib

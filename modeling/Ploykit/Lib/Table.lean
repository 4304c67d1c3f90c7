import Mathlib.Algebra.Order.BigOperators.Group.List
import Mathlib.Data.List.Nodup
import Mathlib.Data.List.Perm.Subperm
import Mathlib.Tactic.Ring

/-!
# Tables

A table is a list of rows. A column, or a tuple of columns, with a unique
constraint is a function `key` whose values along the list have no duplicates.
-/

namespace Ploykit.Lib.Table

variable {α κ : Type} [DecidableEq κ] (key : α → κ)

/-- The row with the key `k`. -/
def get (l : List α) (k : κ) : Option α := l.find? fun a => key a = k

/-- Change the rows whose key is among `ks`. -/
def modify (ks : List κ) (f : α → α) (l : List α) : List α :=
  l.map fun a => if key a ∈ ks then f a else a

variable {key} {l : List α} {ks : List κ} {f : α → α} {a b : α} {k : κ}

/-! ## Lookup -/

theorem get_some (h : get key l k = some a) : a ∈ l ∧ key a = k :=
  ⟨List.mem_of_find?_eq_some h, by simpa using List.find?_some h⟩

theorem get_none : get key l k = none ↔ k ∉ l.map key := by
  simp [get]

theorem get_of_mem (hl : (l.map key).Nodup) (ha : a ∈ l) : get key l (key a) = some a := by
  cases h : get key l (key a) with
  | none => exact absurd (List.mem_map_of_mem ha) (get_none.1 h)
  | some b =>
    obtain ⟨hb, hkey⟩ := get_some h
    rw [List.inj_on_of_nodup_map hl hb ha hkey]

theorem get_append : get key (l ++ [b]) k = (get key l k).or (if key b = k then some b else none) := by
  simp [get, List.find?_append, List.find?_cons]
  split <;> simp_all

/-! ## Update -/

theorem mem_modify : b ∈ modify key ks f l ↔ ∃ a ∈ l, (if key a ∈ ks then f a else a) = b := by
  simp [modify]

theorem map_modify {β : Type} {g : α → β} (hg : ∀ a, g (f a) = g a) :
    (modify key ks f l).map g = l.map g := by
  simp only [modify, List.map_map]
  refine List.map_congr_left fun a _ => ?_
  by_cases h : key a ∈ ks <;> simp [h, hg]

theorem get_modify_of_notMem (hf : ∀ a, key (f a) = key a) (hk : k ∉ ks) :
    get key (modify key ks f l) k = get key l k := by
  induction l with
  | nil => rfl
  | cons a l ih =>
    simp only [get, modify, List.map_cons, List.find?_cons] at ih ⊢
    by_cases ha : key a ∈ ks
    · have hne : key a ≠ k := fun h => hk (h ▸ ha)
      simpa [ha, hf, hne] using ih
    · simp only [ha, if_false]
      by_cases hak : key a = k <;> simp [hak, ih]

/-- The rows of which something holds, when some rows have been changed. -/
theorem exists_modify {rows : List α} (hl : (l.map key).Nodup) (hsub : rows ⊆ l) (P : α → Prop) :
    (∃ b ∈ modify key (rows.map key) f l, P b) ↔
      (∃ a ∈ rows, P (f a)) ∨ ∃ b ∈ l, b ∉ rows ∧ P b := by
  have hrow : ∀ a ∈ l, key a ∈ rows.map key ↔ a ∈ rows := by
    intro a ha
    refine ⟨fun hmem => ?_, List.mem_map_of_mem⟩
    obtain ⟨b, hb, hkey⟩ := List.mem_map.1 hmem
    exact List.inj_on_of_nodup_map hl (hsub hb) ha hkey ▸ hb
  constructor
  · rintro ⟨b, hb, hP⟩
    obtain ⟨a, ha, rfl⟩ := mem_modify.1 hb
    by_cases hmem : a ∈ rows
    · rw [if_pos ((hrow a ha).2 hmem)] at hP
      exact .inl ⟨a, hmem, hP⟩
    · rw [if_neg fun h => hmem ((hrow a ha).1 h)] at hP
      exact .inr ⟨a, ha, hmem, hP⟩
  · rintro (⟨a, ha, hP⟩ | ⟨b, hb, hmem, hP⟩)
    · exact ⟨f a, mem_modify.2 ⟨a, hsub ha, if_pos (List.mem_map_of_mem ha)⟩, hP⟩
    · exact ⟨b, mem_modify.2 ⟨b, hb, if_neg fun h => hmem ((hrow b hb).1 h)⟩, hP⟩

/-- A property of rows holds of as many, or of more rows, after some have been changed. -/
theorem exists_modify_iff {rows : List α} (hl : (l.map key).Nodup) (hsub : rows ⊆ l)
    (P : α → Prop) (Q : Prop) (hrows : (∃ a ∈ rows, P (f a)) ↔ (∃ a ∈ rows, P a) ∨ Q) :
    (∃ b ∈ modify key (rows.map key) f l, P b) ↔ (∃ b ∈ l, P b) ∨ Q := by
  rw [exists_modify hl hsub, hrows]
  constructor
  · rintro ((⟨a, ha, hP⟩ | hQ) | ⟨b, hb, -, hP⟩)
    · exact .inl ⟨a, hsub ha, hP⟩
    · exact .inr hQ
    · exact .inl ⟨b, hb, hP⟩
  · rintro (⟨b, hb, hP⟩ | hQ)
    · by_cases hmem : b ∈ rows
      · exact .inl (.inl ⟨b, hmem, hP⟩)
      · exact .inr ⟨b, hb, hmem, hP⟩
    · exact .inl (.inr hQ)

/-! ## Sums over the rows -/

section sums

variable {rows : List α} {g : α → Int}

theorem sum_filter (p : α → Prop) [DecidablePred p] :
    ((l.filter fun a => p a).map g).sum = (l.map fun a => if p a then g a else 0).sum := by
  induction l with
  | nil => rfl
  | cons a l ih =>
    by_cases h : p a <;> simp only [List.filter_cons, h, decide_true, decide_false, if_true,
      if_false, Bool.false_eq_true, List.map_cons, List.sum_cons, ih, zero_add]

theorem sum_map_ite (p : α → Bool) :
    ((l.map fun a => if p a then f a else a).map g).sum
      = (l.map g).sum + ((l.filter p).map fun a => g (f a) - g a).sum := by
  induction l with
  | nil => rfl
  | cons a l ih =>
    by_cases h : p a <;> simp only [h, List.map_cons, List.sum_cons, List.filter_cons, ih,
      if_true, if_false, Bool.false_eq_true] <;> ring

theorem filter_keys_perm (hl : (l.map key).Nodup) (hrows : rows.Nodup) (hsub : rows ⊆ l) :
    (l.filter fun a => key a ∈ rows.map key).Perm rows := by
  refine (List.perm_ext_iff_of_nodup (hl.of_map _ |>.filter _) hrows).2 fun a => ?_
  simp only [List.mem_filter, decide_eq_true_eq, List.mem_map]
  constructor
  · rintro ⟨ha, b, hb, hkey⟩
    exact List.inj_on_of_nodup_map hl (hsub hb) ha hkey ▸ hb
  · exact fun ha => ⟨hsub ha, a, ha, rfl⟩

/-- Changing some rows changes a sum by what it changes on these rows. -/
theorem sum_modify (hl : (l.map key).Nodup) (hrows : rows.Nodup) (hsub : rows ⊆ l) :
    ((modify key (rows.map key) f l).map g).sum
      = (l.map g).sum + (rows.map fun a => g (f a) - g a).sum := by
  have hsum := @sum_map_ite _ l f g fun a => decide (key a ∈ rows.map key)
  simp only [decide_eq_true_eq] at hsum
  rw [modify, hsum, ((filter_keys_perm hl hrows hsub).map _).sum_eq]

/-- A sum of non-negative terms is at least the sum over some of the rows. -/
theorem sum_le_sum_of_subset (hrows : rows.Nodup) (hsub : rows ⊆ l)
    (hg : ∀ a ∈ l, 0 ≤ g a) : (rows.map g).sum ≤ (l.map g).sum := by
  obtain ⟨rows', hperm, hsubl⟩ := List.subperm_of_subset hrows hsub
  rw [← (hperm.map g).sum_eq]
  exact (hsubl.map g).sum_le_sum (by simpa using hg)

end sums

end Ploykit.Lib.Table

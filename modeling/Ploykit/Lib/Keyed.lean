import Mathlib.Data.List.Find
import Mathlib.Data.List.Sort
import Ploykit.Lib.Table

/-!
# Keyed tables

A `Keyed` table cannot hold two rows with one key. Updates keep the keys of the
rows and their places, so a scan finds the same row before and after an update
that does not touch what the scan looks for.
-/

namespace Ploykit.Lib

/-! ## Sorting -/

namespace Table

variable {α β : Type}

/-- The row that `ORDER BY ... LIMIT 1` returns, where `before` is the order. -/
def first (before : α → α → Bool) : List α → Option α
  | [] => none
  | a :: l => match first before l with
    | none => some a
    | some b => if before b a then some b else some a

variable {before : α → α → Bool} {l : List α} {a : α}

attribute [local simp] first in
theorem mem_of_first (h : first before l = some a) : a ∈ l := by
  induction l generalizing a with
  | nil => cases h
  | cons b l ih =>
    cases hl : first before l with
    | none =>
      simp only [first, hl, Option.some.injEq] at h
      exact h ▸ List.mem_cons_self
    | some c =>
      simp only [first, hl] at h
      split at h <;> cases h
      · exact List.mem_cons_of_mem _ (ih hl)
      · exact List.mem_cons_self

@[simp] theorem first_eq_none : first before l = none ↔ l = [] := by
  cases l with
  | nil => simp [first]
  | cons a l => cases hl : first before l <;> simp [first, hl]; split <;> simp

/-- Changing rows without changing their order changes the first row likewise. -/
theorem first_map {g : α → α} (hg : ∀ a ∈ l, ∀ b ∈ l, before (g a) (g b) = before a b) :
    first before (l.map g) = (first before l).map g := by
  induction l with
  | nil => rfl
  | cons a l ih =>
    have ih := ih fun b hb c hc => hg b (.tail _ hb) c (.tail _ hc)
    cases hl : first before l with
    | none => simp [first, ih, hl]
    | some b =>
      have hb : before (g b) (g a) = before b a := hg b (.tail _ (mem_of_first hl)) a (.head _)
      simp only [List.map_cons, first, ih, hl, Option.map_some, hb]
      split <;> rfl

/-- No row stands before the first row. -/
theorem first_le (hasymm : ∀ a b, before a b → ¬ before b a)
    (htrans : ∀ a b c, ¬ before a b → ¬ before b c → ¬ before a c)
    (h : first before l = some a) : ∀ b ∈ l, ¬ before b a := by
  have hirrefl : ∀ a, ¬ before a a := fun a ha => hasymm a a ha ha
  induction l generalizing a with
  | nil => cases h
  | cons c l ih =>
    intro b hb
    cases hl : first before l with
    | none =>
      simp only [first, hl, Option.some.injEq] at h
      rw [first_eq_none] at hl
      subst hl h
      simp only [List.mem_singleton] at hb
      exact hb ▸ hirrefl _
    | some d =>
      simp only [first, hl] at h
      by_cases hdc : before d c
      · rw [if_pos hdc] at h
        cases h
        rcases List.mem_cons.1 hb with rfl | hb
        · exact hasymm _ _ hdc
        · exact ih hl b hb
      · rw [if_neg hdc] at h
        cases h
        rcases List.mem_cons.1 hb with rfl | hb
        · exact hirrefl _
        · exact htrans _ _ _ (ih hl b hb) hdc

end Table

/-! ## Keyed tables -/

/-- Rows with distinct keys. -/
structure Keyed {α κ : Type} (key : α → κ) where
  rows : List α
  nodup : (rows.map key).Nodup

namespace Keyed

variable {α κ : Type} {key : α → κ}

@[ext] theorem ext {s t : Keyed key} (h : s.rows = t.rows) : s = t := by
  cases s
  cases t
  cases h
  rfl

def empty : Keyed key := ⟨[], List.nodup_nil⟩

variable [DecidableEq κ]

def get (t : Keyed key) (k : κ) : Option α := Table.get key t.rows k

/-- Change the rows whose keys are listed. -/
def update (t : Keyed key) (ks : List κ) (f : α → α) (hf : ∀ a, key (f a) = key a) : Keyed key where
  rows := Table.modify key ks f t.rows
  nodup := by rw [Table.map_modify hf]; exact t.nodup

/-- Change the rows that satisfy `p`. -/
def change (t : Keyed key) (p : α → Bool) (f : α → α) (hf : ∀ a, key (f a) = key a) : Keyed key where
  rows := t.rows.map fun a => if p a then f a else a
  nodup := by
    have hkeys : key ∘ (fun a => if p a then f a else a) = key := by
      funext a
      simp only [Function.comp_apply]
      split
      · exact hf a
      · rfl
    rw [List.map_map, hkeys]
    exact t.nodup

def insert (t : Keyed key) (a : α) (h : t.get (key a) = none) : Keyed key where
  rows := t.rows ++ [a]
  nodup := by
    rw [List.map_append]
    refine List.Nodup.append t.nodup (List.nodup_singleton _) ?_
    simpa using Table.get_none.1 h

/-- Remove the row with the key. -/
def erase (t : Keyed key) (k : κ) : Keyed key where
  rows := t.rows.filter fun a => key a ≠ k
  nodup := t.nodup.sublist (List.filter_sublist.map key)

/-- Remove the rows that satisfy `p`. -/
def drop (t : Keyed key) (p : α → Bool) : Keyed key where
  rows := t.rows.filter fun a => !p a
  nodup := t.nodup.sublist (List.filter_sublist.map key)

/-- The first row, in table order, that satisfies `p`. -/
def find (t : Keyed key) (p : α → Bool) : Option α := t.rows.find? p

variable {t : Keyed key} {k k' : κ} {ks : List κ} {a b : α} {f g : α → α}
  {hf : ∀ a, key (f a) = key a} {hg : ∀ a, key (g a) = key a}

theorem key_of_get (h : t.get k = some a) : key a = k := (Table.get_some h).2

theorem mem_of_get (h : t.get k = some a) : a ∈ t.rows := (Table.get_some h).1

theorem get_of_mem (h : a ∈ t.rows) : t.get (key a) = some a := Table.get_of_mem t.nodup h

omit [DecidableEq κ] in
theorem mem_of_find {p : α → Bool} (h : t.find p = some a) : a ∈ t.rows ∧ p a :=
  ⟨List.mem_of_find?_eq_some h, List.find?_some h⟩

theorem mem_update : b ∈ (t.update ks f hf).rows ↔
    ∃ a ∈ t.rows, (if key a ∈ ks then f a else a) = b := Table.mem_modify

theorem get_update : (t.update ks f hf).get k = if k ∈ ks then (t.get k).map f else t.get k := by
  by_cases hk : k ∈ ks
  · rw [if_pos hk]
    cases ht : t.get k with
    | none =>
      refine Table.get_none.2 ?_
      rw [update, Table.map_modify hf]
      exact Table.get_none.1 ht
    | some a =>
      obtain ⟨hmem, rfl⟩ := Table.get_some ht
      have hupd : f a ∈ (t.update ks f hf).rows := mem_update.2 ⟨a, hmem, if_pos hk⟩
      rw [Option.map_some, ← hf a]
      exact get_of_mem hupd
  · rw [if_neg hk]
    exact Table.get_modify_of_notMem hf hk

@[simp] theorem get_update_self (hf : ∀ a, key (f a) = key a) :
    (t.update [k] f hf).get k = (t.get k).map f := by
  simp [get_update]

theorem get_update_ne (hf : ∀ a, key (f a) = key a) (h : k' ≠ k) :
    (t.update [k] f hf).get k' = t.get k' := by
  simp [get_update, h]

omit [DecidableEq κ] in
theorem mem_change {p : α → Bool} : b ∈ (t.change p f hf).rows ↔ ∃ a ∈ t.rows, (if p a then f a else a) = b :=
  List.mem_map

theorem get_change {p : α → Bool} : (t.change p f hf).get k = (t.get k).map fun a => if p a then f a else a := by
  cases ht : t.get k with
  | none =>
    have hkeys : (t.change p f hf).rows.map key = t.rows.map key := by
      rw [change, List.map_map]
      refine List.map_congr_left fun a _ => ?_
      simp only [Function.comp_apply]
      split
      · exact hf a
      · rfl
    refine Table.get_none.2 ?_
    rw [hkeys]
    exact Table.get_none.1 ht
  | some a =>
    obtain ⟨hmem, rfl⟩ := Table.get_some ht
    have hkey : key (if p a then f a else a) = key a := by
      split
      · exact hf a
      · rfl
    rw [Option.map_some, ← hkey]
    exact get_of_mem (mem_change.2 ⟨a, hmem, rfl⟩)

omit [DecidableEq κ] in
theorem mem_drop {p : α → Bool} : a ∈ (t.drop p).rows ↔ a ∈ t.rows ∧ p a = false := by
  simp [drop]

theorem mem_insert {h : t.get (key a) = none} : b ∈ (t.insert a h).rows ↔ b ∈ t.rows ∨ b = a := by
  simp [insert]

theorem get_insert {h : t.get (key a) = none} :
    (t.insert a h).get k = if key a = k then some a else t.get k := by
  rw [get, insert, Table.get_append]
  by_cases hk : key a = k
  · subst hk
    simp only [get] at h
    simp [h]
  · simp [hk, get]

theorem get_erase : (t.erase k).get k' = if k' = k then none else t.get k' := by
  have hrows : (t.erase k).get k' = t.rows.find? fun a => key a ≠ k ∧ key a = k' := by
    rw [get, erase, Table.get, List.find?_filter]
    simp
  rw [hrows]
  split
  · subst k'
    simp
  · rename_i hne
    refine List.find?_congr fun a _ => ?_
    by_cases ha : key a = k'
    · simp [ha, hne]
    · simp [ha]

/-- Rows that a change leaves as they are may be left out of it, and the other way round. -/
theorem update_congr (h : ∀ a ∈ t.rows, key a ∈ ks → f a = g a) :
    t.update ks f hf = t.update ks g hg := by
  ext1
  refine List.map_congr_left fun a ha => ?_
  by_cases hk : key a ∈ ks
  · simp [hk, h a ha hk]
  · simp [hk]

theorem update_self (h : ∀ a, t.get k = some a → f a = a) : t.update [k] f hf = t := by
  ext1
  refine (List.map_congr_left fun a ha => ?_).trans (List.map_id _)
  by_cases hk : key a = k
  · simp [hk, h a (hk ▸ get_of_mem ha)]
  · simp [hk]

theorem update_update : (t.update ks g hg).update ks f hf
    = t.update ks (fun a => f (g a)) fun a => (hf _).trans (hg a) := by
  ext1
  simp only [update, Table.modify, List.map_map]
  refine List.map_congr_left fun a _ => ?_
  by_cases hk : key a ∈ ks <;> simp [hk, hg]

/-- A scan for something that the change keeps finds the same row, changed. -/
theorem find_update (hf : ∀ a, key (f a) = key a) {p : α → Bool} (h : ∀ a ∈ t.rows, key a ∈ ks → p (f a) = p a) :
    (t.update ks f hf).find p = (t.find p).map fun a => if key a ∈ ks then f a else a := by
  have hp : t.rows.find? (p ∘ fun a => if key a ∈ ks then f a else a) = t.rows.find? p := by
    refine List.find?_congr fun a ha => ?_
    by_cases hk : key a ∈ ks
    · simpa [hk] using h a ha hk
    · simp [hk]
  simp only [find, update, Table.modify, List.find?_map, hp]

/-- So does a scan that sorts what it finds. -/
theorem first_update (hf : ∀ a, key (f a) = key a) {p : α → Bool} {before : α → α → Bool}
    (hp : ∀ a ∈ t.rows, key a ∈ ks → p (f a) = p a)
    (hbefore : ∀ a b, before (f a) b = before a b ∧ before b (f a) = before b a) :
    Table.first before ((t.update ks f hf).rows.filter p)
      = (Table.first before (t.rows.filter p)).map fun a => if key a ∈ ks then f a else a := by
  have hrows : (t.update ks f hf).rows.filter p
      = (t.rows.filter p).map fun a => if key a ∈ ks then f a else a := by
    simp only [update, Table.modify, List.filter_map]
    congr 1
    refine List.filter_congr fun a ha => ?_
    by_cases hk : key a ∈ ks
    · simpa [hk] using hp a ha hk
    · simp [hk]
  rw [hrows]
  refine Table.first_map fun a _ b _ => ?_
  by_cases ha : key a ∈ ks <;> by_cases hb : key b ∈ ks <;> simp [ha, hb, hbefore]

end Keyed

end Ploykit.Lib

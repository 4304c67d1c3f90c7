import Mathlib.Data.List.TakeDrop

/-!
# Slices

All slices start at the first slot of their array. How much room a new array has is the
runtime's choice, `grow` of the old capacity and of the length that is needed.
-/

namespace Ploykit.Lib

/-- The arrays that were allocated, each as long as its capacity. -/
structure Arrays (α : Type) where
  count : Nat
  slots : Nat → List α

structure Slice where
  array : Nat
  length : Nat
  deriving DecidableEq, Repr

variable {α : Type}

namespace Slice

variable (heap : Arrays α) (s t : Slice) (xs : List α)

def slots : List α := heap.slots s.array

def contents : List α := (s.slots heap).take s.length

/-- A slice of an array that was allocated. -/
structure Valid : Prop where
  array : s.array < heap.count
  length : s.length ≤ (s.slots heap).length

/-- What is written after the slice in place is what the other slice holds there. -/
def Apart : Prop :=
  t.array = s.array → ∀ k x y, s.length + k < (s.slots heap).length →
    (t.contents heap)[s.length + k]? = some x → xs[k]? = some y → x = y

end Slice

section Append

variable [Inhabited α] (grow : Nat → Nat → Nat)

def Slice.append (heap : Arrays α) (s : Slice) (x : α) : Arrays α × Slice :=
  let slots := s.slots heap
  if s.length < slots.length then
    ({ heap with slots := Function.update heap.slots s.array (slots.set s.length x) }, { s with length := s.length + 1 })
  else
    let spare := grow slots.length (s.length + 1) - (s.length + 1)
    ({ count := heap.count + 1, slots := Function.update heap.slots heap.count (slots ++ x :: List.replicate spare default) },
      { array := heap.count, length := s.length + 1 })

def Slice.appendAll (heap : Arrays α) (s : Slice) (xs : List α) : Arrays α × Slice :=
  xs.foldl (fun p x => p.2.append grow p.1 x) (heap, s)

end Append

namespace Slice

variable [Inhabited α] {grow : Nat → Nat → Nat} {heap heap' : Arrays α} {s s' t : Slice} {x : α} {xs : List α}

omit [Inhabited α] in
theorem length_contents (h : s.Valid heap) : (s.contents heap).length = s.length := by
  rw [contents, List.length_take, Nat.min_eq_left h.length]

/-! ## One element -/

theorem append_of_room (hroom : s.length < (s.slots heap).length) : s.append grow heap x =
    ({ heap with slots := Function.update heap.slots s.array ((s.slots heap).set s.length x) }, { s with length := s.length + 1 }) :=
  if_pos hroom

theorem append_of_full (hroom : ¬ s.length < (s.slots heap).length) : s.append grow heap x =
    ({ count := heap.count + 1,
       slots := Function.update heap.slots heap.count
        (s.slots heap ++ x :: List.replicate (grow (s.slots heap).length (s.length + 1) - (s.length + 1)) default) },
      { array := heap.count, length := s.length + 1 }) :=
  if_neg hroom

theorem append_length : (s.append grow heap x).2.length = s.length + 1 := by
  by_cases hroom : s.length < (s.slots heap).length
  · rw [append_of_room hroom]
  · rw [append_of_full hroom]

theorem slots_append_of_room (hroom : s.length < (s.slots heap).length) :
    (s.append grow heap x).2.slots (s.append grow heap x).1 = (s.slots heap).set s.length x := by
  rw [append_of_room hroom]
  exact Function.update_self _ _ _

theorem slots_append_of_full (hroom : ¬ s.length < (s.slots heap).length) :
    (s.append grow heap x).2.slots (s.append grow heap x).1 =
      s.slots heap ++ x :: List.replicate (grow (s.slots heap).length (s.length + 1) - (s.length + 1)) default := by
  rw [append_of_full hroom]
  exact Function.update_self _ _ _

theorem append_valid (h : s.Valid heap) : (s.append grow heap x).2.Valid (s.append grow heap x).1 := by
  have hlength := h.length
  by_cases hroom : s.length < (s.slots heap).length
  · refine ⟨?_, ?_⟩
    · rw [append_of_room hroom]
      exact h.array
    · rw [append_length, slots_append_of_room hroom, List.length_set]
      exact hroom
  · refine ⟨?_, ?_⟩
    · rw [append_of_full hroom]
      exact Nat.lt_succ_self _
    · rw [append_length, slots_append_of_full hroom, List.length_append, List.length_cons]
      omega

theorem contents_append (h : s.Valid heap) :
    (s.append grow heap x).2.contents (s.append grow heap x).1 = s.contents heap ++ [x] := by
  rw [contents, append_length, contents]
  by_cases hroom : s.length < (s.slots heap).length
  · rw [slots_append_of_room hroom, List.take_succ_eq_append_getElem (by rwa [List.length_set]), List.getElem_set_self,
      List.take_set_of_le Nat.le.refl]
  · have hfull : (s.slots heap).length = s.length := Nat.le_antisymm (Nat.not_lt.1 hroom) h.length
    rw [slots_append_of_full hroom, List.take_append, hfull, Nat.add_sub_cancel_left,
      List.take_of_length_le (Nat.le_succ_of_le (Nat.le_of_eq hfull)), List.take_of_length_le (Nat.le_of_eq hfull)]
    rfl

/-- Another slice sees the element that was written in place in its array. -/
theorem slots_append (ht : t.Valid heap) : t.slots (s.append grow heap x).1 =
    if t.array = s.array ∧ s.length < (s.slots heap).length then (s.slots heap).set s.length x else t.slots heap := by
  by_cases hroom : s.length < (s.slots heap).length
  · rw [append_of_room hroom, slots]
    by_cases hsame : t.array = s.array
    · rw [if_pos ⟨hsame, hroom⟩, hsame]
      exact Function.update_self _ _ _
    · rw [if_neg fun h => hsame h.1]
      exact Function.update_of_ne hsame _ _
  · rw [append_of_full hroom, if_neg fun h => hroom h.2]
    exact Function.update_of_ne (Nat.ne_of_lt ht.array) _ _

theorem append_valid_other (ht : t.Valid heap) : t.Valid (s.append grow heap x).1 := by
  refine ⟨?_, ?_⟩
  · by_cases hroom : s.length < (s.slots heap).length
    · rw [append_of_room hroom]
      exact ht.array
    · rw [append_of_full hroom]
      exact Nat.lt_succ_of_lt ht.array
  · rw [slots_append ht]
    by_cases hplace : t.array = s.array ∧ s.length < (s.slots heap).length
    · rw [if_pos hplace, List.length_set]
      have hlength := ht.length
      rwa [slots, hplace.1] at hlength
    · rw [if_neg hplace]
      exact ht.length

/-- In place or in a new array, another array stays another. -/
theorem append_array_ne (ht : t.Valid heap) (h : t.array ≠ s.array ∨ ¬ s.length < (s.slots heap).length) :
    t.array ≠ (s.append grow heap x).2.array := by
  by_cases hroom : s.length < (s.slots heap).length
  · rw [append_of_room hroom]
    exact h.resolve_right (not_not.2 hroom)
  · rw [append_of_full hroom]
    exact (Nat.ne_of_lt ht.array)

/-! ## Many elements -/

theorem appendAll_cons : s.appendAll grow heap (x :: xs) =
    (s.append grow heap x).2.appendAll grow (s.append grow heap x).1 xs := rfl

theorem appendAll_valid (h : s.Valid heap) : (s.appendAll grow heap xs).2.Valid (s.appendAll grow heap xs).1 := by
  induction xs generalizing heap s with
  | nil => exact h
  | cons x xs ih => exact ih (append_valid h)

theorem contents_appendAll (h : s.Valid heap) :
    (s.appendAll grow heap xs).2.contents (s.appendAll grow heap xs).1 = s.contents heap ++ xs := by
  induction xs generalizing heap s with
  | nil => exact (List.append_nil _).symm
  | cons x xs ih => rw [appendAll_cons, ih (append_valid h), contents_append h, List.append_assoc, List.singleton_append]

theorem appendAll_valid_other (ht : t.Valid heap) : t.Valid (s.appendAll grow heap xs).1 := by
  induction xs generalizing heap s with
  | nil => exact ht
  | cons x xs ih => exact ih (append_valid_other ht)

theorem slots_appendAll_of_ne (ht : t.Valid heap) (hne : t.array ≠ s.array) :
    t.slots (s.appendAll grow heap xs).1 = t.slots heap := by
  induction xs generalizing heap s with
  | nil => rfl
  | cons x xs ih =>
    have hstep : t.slots (s.append grow heap x).1 = t.slots heap := by rw [slots_append ht, if_neg fun h => hne h.1]
    rw [appendAll_cons, ih (append_valid_other ht) (append_array_ne ht (.inl hne)), hstep]

/-- In the array of the slice what is appended fills the room after the slice. -/
theorem slots_appendAll_of_eq (hs : s.Valid heap) (ht : t.Valid heap) (heq : t.array = s.array) (n : Nat) :
    (t.slots (s.appendAll grow heap xs).1)[n]? =
      if s.length ≤ n ∧ n < (s.slots heap).length ∧ n < s.length + xs.length then xs[n - s.length]? else (t.slots heap)[n]? := by
  induction xs generalizing heap s with
  | nil => rw [if_neg fun h => absurd h.2.2 (Nat.not_lt.2 h.1)]; rfl
  | cons x xs ih =>
    have hslots : t.slots heap = s.slots heap := by rw [slots, heq, slots]
    have hstep : t.slots (s.append grow heap x).1 = _ := slots_append ht
    by_cases hroom : s.length < (s.slots heap).length
    · have hslice : (s.append grow heap x).2 = { s with length := s.length + 1 } := by rw [append_of_room hroom]
      rw [if_pos ⟨heq, hroom⟩] at hstep
      have hrest := ih (append_valid hs) (append_valid_other ht) (by rw [hslice]; exact heq)
      rw [slots_append_of_room hroom, List.length_set, append_length, hstep] at hrest
      rw [appendAll_cons, hrest, List.length_cons]
      rcases Nat.lt_trichotomy n s.length with hlt | rfl | hgt
      · rw [if_neg (by omega), if_neg (by omega), List.getElem?_set_ne (by omega), hslots]
      · rw [if_neg (by omega), if_pos (by omega), List.getElem?_set_self hroom, Nat.sub_self]
        rfl
      · have hsplit : n - s.length = n - (s.length + 1) + 1 := by omega
        by_cases hin : n < (s.slots heap).length ∧ n < s.length + 1 + xs.length
        · rw [if_pos (by omega), if_pos (by omega), hsplit, List.getElem?_cons_succ]
        · rw [if_neg (by omega), if_neg (by omega), List.getElem?_set_ne (by omega), hslots]
    · have hfresh : t.array ≠ (s.append grow heap x).2.array := append_array_ne ht (.inr hroom)
      rw [if_neg fun h => hroom h.2] at hstep
      rw [appendAll_cons, slots_appendAll_of_ne (append_valid_other ht) hfresh, hstep, if_neg (by omega)]

/-- Another slice keeps its contents exactly when what is written in place is what it holds. -/
theorem contents_appendAll_other_iff (hs : s.Valid heap) (ht : t.Valid heap) :
    t.contents (s.appendAll grow heap xs).1 = t.contents heap ↔ s.Apart heap t xs := by
  by_cases heq : t.array = s.array
  · have hget : ∀ n, (t.contents (s.appendAll grow heap xs).1)[n]? =
        if n < t.length then (t.slots (s.appendAll grow heap xs).1)[n]? else none :=
      fun n => List.getElem?_take
    have hold : ∀ n, (t.contents heap)[n]? = if n < t.length then (t.slots heap)[n]? else none := fun n => List.getElem?_take
    constructor
    · intro hsame _ k x y hk hx hy
      obtain ⟨hlt, _⟩ := List.getElem?_eq_some_iff.1 hx
      rw [length_contents ht] at hlt
      obtain ⟨hxs, _⟩ := List.getElem?_eq_some_iff.1 hy
      have hnew := hget (s.length + k)
      rw [hsame, hx, if_pos hlt, slots_appendAll_of_eq hs ht heq, if_pos (by omega), Nat.add_sub_cancel_left, hy] at hnew
      exact Option.some.inj hnew
    · intro hapart
      refine List.ext_getElem? fun n => ?_
      rw [hget, hold]
      by_cases hn : n < t.length
      · rw [if_pos hn, if_pos hn, slots_appendAll_of_eq hs ht heq]
        by_cases hin : s.length ≤ n ∧ n < (s.slots heap).length ∧ n < s.length + xs.length
        · rw [if_pos hin]
          have hslots : t.slots heap = s.slots heap := by rw [slots, heq, slots]
          have hx : (t.contents heap)[s.length + (n - s.length)]? = (t.slots heap)[n]? := by
            rw [hold, Nat.add_sub_cancel' hin.1, if_pos hn]
          obtain ⟨y, hy⟩ : ∃ y, xs[n - s.length]? = some y := ⟨_, List.getElem?_eq_getElem (by omega)⟩
          obtain ⟨x, hsome⟩ : ∃ x, (t.slots heap)[n]? = some x := ⟨_, List.getElem?_eq_getElem (by rw [hslots]; exact hin.2.1)⟩
          rw [hy, hsome]
          exact congrArg some (hapart heq _ _ _ (by omega) (hx.trans hsome) hy).symm
        · rw [if_neg hin]
      · rw [if_neg hn, if_neg hn]
  · refine iff_of_true ?_ fun h => absurd h heq
    rw [contents, slots_appendAll_of_ne ht heq, contents]

end Slice

end Ploykit.Lib

import Mathlib.Data.List.DropRight
import Mathlib.Data.List.Rotate

/-!
# Circular buffers

The slots are filled first. Then every element replaces the oldest one, at the head, which
moves on around the end.
-/

namespace Ploykit.Lib

variable {α : Type} {cap head : Nat} {x : α} {slots log : List α}

/-- The slots from the head on, around the end. -/
def unroll (slots : List α) (head : Nat) : List α :=
  (List.range slots.length).filterMap fun i => slots[(head + i) % slots.length]?

theorem unroll_eq_rotate (slots : List α) (head : Nat) : unroll slots head = slots.rotate head := by
  have hget : ∀ i ∈ List.range slots.length, slots[(head + i) % slots.length]? = (slots.rotate head)[i]? := by
    intro i hi
    rw [List.getElem?_rotate (List.mem_range.1 hi), Nat.add_comm]
  have hrange : ∀ l : List α, (List.range l.length).filterMap (fun i => l[i]?) = l := by
    intro l
    induction l with
    | nil => rfl
    | cons x l ih =>
      rw [List.length_cons, List.range_succ_eq_map, List.filterMap_cons, List.filterMap_map]
      simpa using ih
  rw [unroll, List.filterMap_congr hget, ← List.length_rotate slots head]
  exact hrange _

/-- The oldest element goes and the new one comes last. -/
theorem rotate_overwrite (hhead : head < slots.length) :
    (slots.set head x).rotate ((head + 1) % slots.length) = (slots.rotate head).tail ++ [x] := by
  have hlength : (slots.set head x).length = slots.length := List.length_set
  rw [← hlength, List.rotate_mod]
  obtain ⟨before, old, after, rfl, rfl⟩ : ∃ before old after, slots = before ++ old :: after ∧ head = before.length :=
    ⟨slots.take head, slots[head], slots.drop (head + 1), by rw [← List.drop_eq_getElem_cons hhead, List.take_append_drop],
      by rw [List.length_take, Nat.min_eq_left hhead.le]⟩
  have hset : (before ++ old :: after).set before.length x = (before ++ [x]) ++ after := by
    rw [List.set_append_right _ _ le_rfl, Nat.sub_self, List.set_cons_zero, List.append_assoc]
    rfl
  have hnext : before.length + 1 = (before ++ [x]).length := by simp
  rw [hset, hnext, List.rotate_append_length_eq, List.rotate_append_length_eq, List.cons_append, List.tail_cons, List.append_assoc]

/-! ## Windows -/

theorem length_rtake (l : List α) (n : Nat) : (l.rtake n).length = min n l.length := by
  rw [List.rtake, List.length_drop]
  omega

theorem rtake_concat_of_lt (h : log.length < cap) : (log ++ [x]).rtake cap = log.rtake cap ++ [x] := by
  rw [List.rtake, List.rtake, Nat.sub_eq_zero_of_le h.le, List.length_append, List.length_singleton, Nat.sub_eq_zero_of_le h]
  rfl

theorem rtake_concat_of_le (hpos : 0 < cap) (h : cap ≤ log.length) : (log ++ [x]).rtake cap = (log.rtake cap).tail ++ [x] := by
  obtain ⟨n, rfl⟩ := Nat.exists_eq_succ_of_ne_zero hpos.ne'
  rw [List.rtake_concat_succ]
  refine congrArg (· ++ [x]) ?_
  rw [List.rtake, List.rtake, List.tail_drop]
  exact congrArg (log.drop ·) (by omega)

/-- The slots are the last elements that were written, the oldest one at the head. -/
structure Window (cap : Nat) (log slots : List α) (head : Nat) : Prop where
  contents : slots.rotate head = log.rtake cap
  head_lt : head < cap
  unwrapped : slots.length < cap → head = 0

namespace Window

theorem init (hcap : 0 < cap) : Window cap ([] : List α) [] 0 := ⟨by simp, hcap, fun _ => rfl⟩

variable (h : Window cap log slots head)

include h

theorem length : slots.length = min cap log.length := by
  rw [← length_rtake, ← h.contents, List.length_rotate]

theorem unroll_eq : unroll slots head = log.rtake cap := by rw [unroll_eq_rotate, h.contents]

theorem fill (hroom : slots.length < cap) : Window cap (log ++ [x]) (slots ++ [x]) 0 := by
  have hlog : log.length < cap := by
    have hlength := h.length
    omega
  refine ⟨?_, h.head_lt.trans_le' (Nat.zero_le head), fun _ => rfl⟩
  rw [List.rotate_zero, rtake_concat_of_lt hlog, ← h.contents, h.unwrapped hroom, List.rotate_zero]

theorem overwrite (hfull : ¬ slots.length < cap) : Window cap (log ++ [x]) (slots.set head x) ((head + 1) % cap) := by
  have hlength := h.length
  have hslots : slots.length = cap := by omega
  refine ⟨?_, Nat.mod_lt _ (Nat.zero_lt_of_lt h.head_lt), fun hlt => ?_⟩
  · rw [← hslots, rotate_overwrite (hslots.symm ▸ h.head_lt), h.contents, hslots,
      ← rtake_concat_of_le (Nat.zero_lt_of_lt h.head_lt) (by omega)]
  · rw [List.length_set] at hlt
    exact absurd hlt hfull

end Window

end Ploykit.Lib

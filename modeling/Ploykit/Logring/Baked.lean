import Mathlib.Algebra.BigOperators.Group.List.Basic
import Mathlib.Tactic.Linarith
import Ploykit.Logring.Ring

/-!
# Baked attributes

`appendPrebaked` and `flatten` turn an attribute into keys and texts in two ways. They agree on every
attribute but those inside a group, and there only when no group is around it and none inside.
-/

namespace Ploykit.Logring

open Lib

variable {grow : Nat → Nat → Nat} {redact scrub : String → String} {groups : List String} {attrs : List Slog.Attr} {a : Slog.Attr}

/-! ## What is baked -/

def prebakedOf (groups : List String) (a : Slog.Attr) (extraPrefix : String) : List Attr :=
  if Slog.isZero a then []
  else
    let key := joinKey groups a.1
    [{ key := if extraPrefix ≠ "" then extraPrefix ++ "." ++ key else key, value := a.2.string }]

def bakedOf (groups : List String) (a : Slog.Attr) : List Attr :=
  match a.2 with
  | .group attrs => attrs.flatMap fun ga => prebakedOf groups ga (joinKey groups a.1)
  | _ => prebakedOf groups a ""

/-- What `flatten` makes of the attribute, before it is redacted. -/
def flattened (groups : List String) (a : Slog.Attr) : List Attr := flattenAttr id groups a.1 a.2

theorem appendPrebaked_eq (p : Arrays Attr × Slice) (extraPrefix : String) :
    appendPrebaked grow p groups a extraPrefix = p.2.appendAll grow p.1 (prebakedOf groups a extraPrefix) := by
  unfold appendPrebaked prebakedOf
  by_cases hzero : Slog.isZero a = true
  · rw [if_pos hzero, if_pos hzero]
    rfl
  · rw [if_neg hzero, if_neg hzero]
    rfl

/-- Lists that are appended one after the other are appended as one. -/
theorem foldl_appendAll {β : Type} (f : β → List Attr) (bs : List β) (p : Arrays Attr × Slice) :
    bs.foldl (fun p b => p.2.appendAll grow p.1 (f b)) p = p.2.appendAll grow p.1 (bs.flatMap f) := by
  induction bs generalizing p with
  | nil => rfl
  | cons b bs ih =>
    rw [List.foldl_cons, ih, List.flatMap_cons, Slice.appendAll, Slice.appendAll, Slice.appendAll, List.foldl_append]

theorem bakeAttr_eq (p : Arrays Attr × Slice) : bakeAttr grow groups p a = p.2.appendAll grow p.1 (bakedOf groups a) := by
  obtain ⟨key, v⟩ := a
  cases v with
  | null => exact appendPrebaked_eq p ""
  | text s => exact appendPrebaked_eq p ""
  | group attrs =>
    have hstep : (fun (p : Arrays Attr × Slice) ga => appendPrebaked grow p groups ga (joinKey groups key)) =
        fun p ga => p.2.appendAll grow p.1 (prebakedOf groups ga (joinKey groups key)) :=
      funext fun p => funext fun ga => appendPrebaked_eq p _
    show attrs.foldl (fun p ga => appendPrebaked grow p groups ga (joinKey groups key)) p = _
    rw [hstep, foldl_appendAll]
    rfl

theorem withAttrs_eq (h : Handler) (heap : Arrays Attr) : h.withAttrs grow heap attrs =
    ((h.prebaked.appendAll grow heap (attrs.flatMap (bakedOf h.groups))).1,
      { h with prebaked := (h.prebaked.appendAll grow heap (attrs.flatMap (bakedOf h.groups))).2 }) := by
  unfold Handler.withAttrs
  by_cases hnone : attrs.length = 0
  · rw [if_pos hnone, List.length_eq_zero_iff.1 hnone]
    rfl
  · rw [if_neg hnone]
    have hstep : bakeAttr grow h.groups = fun p a => p.2.appendAll grow p.1 (bakedOf h.groups a) :=
      funext fun p => funext fun a => bakeAttr_eq p
    rw [hstep, foldl_appendAll]

/-! ## Which attributes are baked as they are flattened -/

/-- An attribute that holds no group but one without a group inside, under no other group and with a name. -/
def Plain (groups : List String) (a : Slog.Attr) : Prop :=
  match a.2 with
  | .group attrs => (∀ ga ∈ attrs, Slog.isZero ga) ∨ (groups = [] ∧ a.1 ≠ "" ∧ ∀ ga ∈ attrs, ¬ ga.2.isGroup)
  | _ => True

def weight (baked : List Attr) : Nat := (baked.map fun a => a.value.length + 1).sum

theorem weight_append (l l' : List Attr) : weight (l ++ l') = weight l + weight l' := by
  rw [weight, List.map_append, List.sum_append, weight, weight]

theorem sum_length_le_intercalate (l : List String) : (l.map String.length).sum ≤ (" ".intercalate l).length := by
  induction l with
  | nil => exact Nat.zero_le _
  | cons s l ih =>
    cases l with
    | nil => simp
    | cons t l =>
      rw [String.intercalate_cons_cons, List.map_cons, List.sum_cons, String.length_append, String.length_append]
      omega

mutual

/-- The text of a value is longer than the values inside. -/
theorem weight_flattenAttr_le (groups : List String) (key : String) :
    ∀ v : Slog.Value, weight (flattenAttr id groups key v) ≤ v.string.length + 1
  | .null => by
    rw [flattenAttr]
    split
    · exact Nat.zero_le _
    · exact Nat.le_refl _
  | .text s => by
    rw [flattenAttr]
    exact Nat.le_refl _
  | .group attrs => by
    have hattrs := weight_flattenAttrs_le (groups ++ [key]) attrs
    have hlength := sum_length_le_intercalate (Slog.strings attrs)
    rw [flattenAttr, Slog.Value.string, String.length_append, String.length_append]
    omega

theorem weight_flattenAttrs_le (groups : List String) :
    ∀ attrs : List Slog.Attr, weight (flattenAttrs id groups attrs) ≤ ((Slog.strings attrs).map String.length).sum
  | [] => by
    rw [flattenAttrs]
    exact Nat.le_refl _
  | (key, v) :: attrs => by
    have hattr := weight_flattenAttr_le groups key v
    have hattrs := weight_flattenAttrs_le groups attrs
    have heq : "=".length = 1 := by decide
    rw [flattenAttrs, weight_append, Slog.strings, List.map_cons, List.sum_cons, String.length_append, String.length_append, heq]
    omega

end

/-- As heavy only when as long. -/
structure Lighter (l l' : List Attr) : Prop where
  le : weight l ≤ weight l'
  length : weight l = weight l' → l.length = l'.length

namespace Lighter

variable {β : Type} {f g : β → List Attr} {bs : List β}

theorem append {l l' m m' : List Attr} (hl : Lighter l l') (hm : Lighter m m') : Lighter (l ++ m) (l' ++ m') := by
  have hle := hl.le
  have hle' := hm.le
  refine ⟨?_, fun heq => ?_⟩
  · rw [weight_append, weight_append]
    omega
  · rw [weight_append, weight_append] at heq
    rw [List.length_append, List.length_append, hl.length (by omega), hm.length (by omega)]

theorem flatMap (h : ∀ b ∈ bs, Lighter (f b) (g b)) : Lighter (bs.flatMap f) (bs.flatMap g) := by
  induction bs with
  | nil => exact ⟨Nat.le_refl _, fun _ => rfl⟩
  | cons b bs ih => exact (h b List.mem_cons_self).append (ih fun c hc => h c (List.mem_cons_of_mem b hc))

/-- Lists that are joined are equal only when each of them is. -/
theorem flatMap_eq_iff (h : ∀ b ∈ bs, Lighter (f b) (g b)) : bs.flatMap g = bs.flatMap f ↔ ∀ b ∈ bs, g b = f b := by
  induction bs with
  | nil => exact iff_of_true rfl fun _ hb => (List.not_mem_nil hb).elim
  | cons b bs ih =>
    have hb := h b List.mem_cons_self
    have hbs : ∀ c ∈ bs, Lighter (f c) (g c) := fun c hc => h c (List.mem_cons_of_mem b hc)
    rw [List.flatMap_cons, List.flatMap_cons, List.forall_mem_cons, ← ih hbs]
    constructor
    · intro heq
      have hweight := congrArg weight heq
      rw [weight_append, weight_append] at hweight
      have hle := hb.le
      have hle' := (flatMap hbs).le
      exact List.append_inj heq (hb.length (by omega)).symm
    · intro heq
      rw [heq.1, heq.2]

end Lighter

theorem flattenAttrs_eq (groups : List String) (attrs : List Slog.Attr) : flattenAttrs id groups attrs = attrs.flatMap (flattened groups) := by
  induction attrs with
  | nil => rw [flattenAttrs, List.flatMap_nil]
  | cons a attrs ih => rw [flattenAttrs, ih, List.flatMap_cons, flattened]

section Child

variable {base key : String}

theorem prebakedOf_zero (h : Slog.isZero a) : prebakedOf groups a base = [] := if_pos h

theorem flattened_zero (h : Slog.isZero a) : flattened groups a = [] := by
  obtain ⟨key, v⟩ := a
  cases v with
  | null => rw [flattened, flattenAttr, if_pos (of_decide_eq_true h)]
  | text s => cases h
  | group attrs => cases h

/-- An attribute that is no group. -/
theorem flattened_leaf (hzero : ¬ Slog.isZero a) (hleaf : ¬ a.2.isGroup) :
    flattened groups a = [{ key := joinKey groups a.1, value := a.2.string }] := by
  obtain ⟨key, v⟩ := a
  cases v with
  | null => rw [flattened, flattenAttr, if_neg fun h => hzero (decide_eq_true h)]; rfl
  | text s => rw [flattened, flattenAttr, Slog.Value.string]; rfl
  | group attrs => exact absurd rfl hleaf

theorem weight_prebakedOf_group (hgroup : a.2.isGroup) (inner groups : List String) (base : String) :
    weight (flattened inner a) < weight (prebakedOf groups a base) := by
  obtain ⟨key, v⟩ := a
  cases v with
  | null => cases hgroup
  | text s => cases hgroup
  | group attrs =>
    have hattrs := weight_flattenAttrs_le (inner ++ [key]) attrs
    have hlength := sum_length_le_intercalate (Slog.strings attrs)
    have hbaked : weight (prebakedOf groups (key, .group attrs) base) = (Slog.Value.group attrs).string.length + 1 := rfl
    show weight (flattenAttr id inner key (.group attrs)) < _
    rw [hbaked, flattenAttr, Slog.Value.string, String.length_append, String.length_append]
    omega

theorem lighter_child {inner : List String} : Lighter (flattened inner a) (prebakedOf groups a base) := by
  by_cases hzero : Slog.isZero a = true
  · rw [prebakedOf_zero hzero, flattened_zero hzero]
    exact ⟨Nat.le_refl _, fun _ => rfl⟩
  · by_cases hgroup : a.2.isGroup = true
    · have hlt := weight_prebakedOf_group hgroup inner groups base
      exact ⟨hlt.le, fun heq => absurd heq hlt.ne⟩
    · rw [flattened_leaf hzero hgroup, prebakedOf, if_neg hzero]
      exact ⟨Nat.le_refl _, fun _ => rfl⟩

/-- The name of a group stands before those of the groups around it, again. -/
theorem key_child_eq_iff (groups : List String) (key child : String) :
    (if joinKey groups key ≠ "" then joinKey groups key ++ "." ++ joinKey groups child else joinKey groups child) =
      joinKey (groups ++ [key]) child ↔ groups = [] ∧ key ≠ "" := by
  have hinner : joinKey (groups ++ [key]) child = ".".intercalate (groups ++ [key]) ++ "." ++ child := if_pos (by simp)
  rw [hinner]
  have hdot : ".".length = 1 := by decide
  by_cases hgroups : groups = []
  · subst hgroups
    have hkey : joinKey [] key = key := rfl
    rw [hkey, List.nil_append, String.intercalate_singleton]
    by_cases hname : key = ""
    · rw [if_neg (not_not.2 hname)]
      refine iff_of_false (fun heq => ?_) fun h => h.2 hname
      have hlength := congrArg String.length heq
      rw [String.length_append, String.length_append, hdot] at hlength
      have hchild : joinKey [] child = child := rfl
      rw [hchild] at hlength
      omega
    · rw [if_pos hname]
      exact iff_of_true rfl ⟨rfl, hname⟩
  · have houter : ∀ k, joinKey groups k = ".".intercalate groups ++ "." ++ k := fun k => if_pos hgroups
    have hbase : joinKey groups key ≠ "" := fun h => by
      have hlength := congrArg String.length h
      rw [houter, String.length_append, String.length_append, hdot] at hlength
      have hempty : "".length = 0 := rfl
      omega
    rw [if_pos hbase]
    refine iff_of_false (fun heq => ?_) fun h => hgroups h.1
    have hlength := congrArg String.length heq
    rw [houter, houter, String.intercalate_append_of_ne_nil hgroups (List.cons_ne_nil _ _), String.intercalate_singleton] at hlength
    simp only [String.length_append, hdot] at hlength
    omega

theorem prebakedOf_eq_iff {key : String} : prebakedOf groups a (joinKey groups key) = flattened (groups ++ [key]) a ↔
    Slog.isZero a ∨ (groups = [] ∧ key ≠ "") ∧ ¬ a.2.isGroup := by
  by_cases hzero : Slog.isZero a = true
  · rw [prebakedOf_zero hzero, flattened_zero hzero]
    exact iff_of_true rfl (.inl hzero)
  · by_cases hgroup : a.2.isGroup = true
    · have hlt := weight_prebakedOf_group hgroup (groups ++ [key]) groups (joinKey groups key)
      refine iff_of_false (fun heq => hlt.ne (congrArg weight heq).symm) fun h => ?_
      exact h.elim hzero fun h => h.2 hgroup
    · rw [flattened_leaf hzero hgroup, prebakedOf, if_neg hzero, or_iff_right hzero, and_iff_left hgroup, ← key_child_eq_iff groups key a.1]
      simp

end Child

theorem lighter_bakedOf (groups : List String) (a : Slog.Attr) : Lighter (flattened groups a) (bakedOf groups a) := by
  obtain ⟨key, v⟩ := a
  cases v with
  | null => exact lighter_child
  | text s => exact lighter_child
  | group attrs =>
    show Lighter (flattenAttrs id (groups ++ [key]) attrs) (attrs.flatMap fun ga => prebakedOf groups ga (joinKey groups key))
    rw [flattenAttrs_eq]
    exact Lighter.flatMap fun ga _ => lighter_child

/-- An attribute is baked as it is flattened exactly when it is plain. -/
theorem bakedOf_eq_iff : bakedOf groups a = flattened groups a ↔ Plain groups a := by
  obtain ⟨key, v⟩ := a
  have hleaf : ∀ v : Slog.Value, ¬ v.isGroup → prebakedOf groups (key, v) "" = flattened groups (key, v) := by
    intro v hv
    by_cases hzero : Slog.isZero (key, v) = true
    · rw [prebakedOf_zero hzero, flattened_zero hzero]
    · rw [flattened_leaf hzero hv, prebakedOf, if_neg hzero]
      rfl
  cases v with
  | null => exact iff_of_true (hleaf .null Bool.false_ne_true) trivial
  | text s => exact iff_of_true (hleaf (.text s) Bool.false_ne_true) trivial
  | group attrs =>
    show (attrs.flatMap fun ga => prebakedOf groups ga (joinKey groups key)) = flattenAttrs id (groups ++ [key]) attrs ↔
      (∀ ga ∈ attrs, Slog.isZero ga) ∨ (groups = [] ∧ key ≠ "" ∧ ∀ ga ∈ attrs, ¬ ga.2.isGroup)
    rw [flattenAttrs_eq, Lighter.flatMap_eq_iff fun ga _ => lighter_child]
    simp only [prebakedOf_eq_iff]
    by_cases hnamed : groups = [] ∧ key ≠ ""
    · have hzero : ∀ ga : Slog.Attr, Slog.isZero ga → ¬ ga.2.isGroup := fun ga h hgroup => by
        obtain ⟨k, v⟩ := ga
        cases v with
        | null => cases hgroup
        | text s => cases hgroup
        | group attrs => cases h
      constructor
      · exact fun h => .inr ⟨hnamed.1, hnamed.2, fun ga hga => (h ga hga).elim (hzero ga) And.right⟩
      · exact fun h ga hga => h.elim (fun h => .inl (h ga hga)) fun h => .inr ⟨hnamed, h.2.2 ga hga⟩
    · constructor
      · exact fun h => .inl fun ga hga => (h ga hga).resolve_right fun h => hnamed h.1
      · exact fun h ga hga => .inl (h.resolve_right (fun h => hnamed ⟨h.1, h.2.1⟩) ga hga)

theorem flatMap_bakedOf_eq_iff : attrs.flatMap (bakedOf groups) = attrs.flatMap (flattened groups) ↔ ∀ a ∈ attrs, Plain groups a := by
  rw [Lighter.flatMap_eq_iff fun a _ => lighter_bakedOf groups a]
  exact forall₂_congr fun a _ => bakedOf_eq_iff

end Ploykit.Logring

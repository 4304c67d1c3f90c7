import Mathlib.Data.List.MinMax
import Mathlib.Data.List.Perm.Basic
import Ploykit.Platform.GoString

/-!
# Scope paths

A shape has one or two variables. Of the shapes that match a path the one with the most
literals is taken, and of several with equally many the one registered first.
-/

namespace Ploykit.Authz

open GoString

/-! ## Shapes -/

structure ScopePath where
  workspaceID : GoString := []
  projectID : GoString := []
  deriving DecidableEq, Repr

inductive ScopeSeg where
  | literal (s : GoString)
  | workspace
  | project
  deriving DecidableEq, Repr

def ScopeSeg.isLiteral : ScopeSeg → Bool
  | .literal _ => true
  | _ => false

structure ScopeShape where
  segs : List ScopeSeg
  literals : Nat
  counted : literals = segs.countP ScopeSeg.isLiteral
  deriving DecidableEq, Repr

/-- One more segment. -/
def ScopeShape.add (ss : ScopeShape) (seg : ScopeSeg) : ScopeShape where
  segs := ss.segs ++ [seg]
  literals := if seg.isLiteral then ss.literals + 1 else ss.literals
  counted := by
    rw [List.countP_append, List.countP_singleton, ss.counted]
    split <;> rfl

inductive ScopeErr where
  | segments
  | emptyName (seg : GoString)
  | variables (n : Nat)
  deriving DecidableEq, Repr

def splitScopePath : GoString → Option (List GoString)
  | [] => none
  | c :: p => if c = slash then if [] ∈ elements p then none else some (elements p) else none

def scopeVar (seg : GoString) : Option GoString :=
  if lit "\x7b" <+: seg ∧ lit "\x7d" <:+ seg then some (seg.drop 1).dropLast else none

/-- The loop of `parseScopeShape`, with the shape and the number of variables so far. -/
def parseSegs : List GoString → ScopeShape → Nat → Except ScopeErr (ScopeShape × Nat)
  | [], out, vars => .ok (out, vars)
  | p :: parts, out, vars =>
    match scopeVar p with
    | none => parseSegs parts (out.add (.literal p)) vars
    | some [] => .error (.emptyName p)
    | some (_ :: _) => parseSegs parts (out.add (if vars = 1 then .project else .workspace)) (vars + 1)

def parseScopeShape (shape : GoString) : Except ScopeErr ScopeShape :=
  match splitScopePath shape with
  | none => .error .segments
  | some parts =>
    match parseSegs parts ⟨[], 0, rfl⟩ 0 with
    | .error e => .error e
    | .ok (out, vars) => if vars < 1 ∨ 2 < vars then .error (.variables vars) else .ok out

def sameScopeShape (a b : ScopeShape) : Bool :=
  a.segs.length = b.segs.length ∧ a.literals = b.literals ∧ a.segs = b.segs

def registerScopeShape (scopeShapes : List ScopeShape) (shape : GoString) : Except ScopeErr (List ScopeShape) :=
  match parseScopeShape shape with
  | .error e => .error e
  | .ok ss => .ok (if scopeShapes.any fun existing => sameScopeShape existing ss then scopeShapes else scopeShapes ++ [ss])

/-- The shapes after one more call, which changes nothing if it fails. -/
def afterRegister (scopeShapes : List ScopeShape) (shape : GoString) : List ScopeShape :=
  match registerScopeShape scopeShapes shape with
  | .error _ => scopeShapes
  | .ok scopeShapes' => scopeShapes'

/-- What is registered after these calls, one after the other. -/
def registered (shapes : List GoString) : List ScopeShape := shapes.foldl afterRegister []

/-! ## Resolution -/

/-- The loop over the segments, with what the variables before have taken. -/
def bindSegs : List ScopeSeg → List GoString → ScopePath → Option ScopePath
  | [], [], sp => some sp
  | .literal s :: segs, p :: parts, sp => if s ≠ p then none else bindSegs segs parts sp
  | .workspace :: segs, p :: parts, sp => bindSegs segs parts { sp with workspaceID := p }
  | .project :: segs, p :: parts, sp => bindSegs segs parts { sp with projectID := p }
  | _, _, _ => none

/-- What the shape reads off a path, if it matches it. -/
def ScopeShape.bind (ss : ScopeShape) (parts : List GoString) : Option ScopePath :=
  if ss.segs.length ≠ parts.length then none else bindSegs ss.segs parts {}

/-- The loop of `ParseScopePath`, with the best match so far and its literals. -/
def resolveFrom (parts : List GoString) : List ScopeShape → ScopePath → Int → ScopePath × Int
  | [], best, bestSpec => (best, bestSpec)
  | ss :: shapes, best, bestSpec =>
    match ss.bind parts with
    | none => resolveFrom parts shapes best bestSpec
    | some sp =>
      if bestSpec < ss.literals then resolveFrom parts shapes sp ss.literals else resolveFrom parts shapes best bestSpec

def parseScopePath (scopeShapes : List ScopeShape) (path : GoString) : ScopePath × Bool :=
  match splitScopePath path with
  | none => ({}, false)
  | some parts =>
    let (best, bestSpec) := resolveFrom parts scopeShapes {} (-1)
    (best, 0 ≤ bestSpec)

/-! ### What is resolved -/

section resolution

variable {parts : List GoString} {shapes shapes' : List ScopeShape} {ss ss' : ScopeShape} {path : GoString}

/-- The shapes that match the path. -/
def matching (parts : List GoString) (shapes : List ScopeShape) : List ScopeShape :=
  shapes.filter fun ss => (ss.bind parts).isSome

/-- The shape matches the path, and none that does has more literals. -/
structure ScopeShape.Specific (ss : ScopeShape) (parts : List GoString) (shapes : List ScopeShape) : Prop where
  mem : ss ∈ shapes
  isSome : (ss.bind parts).isSome
  literals_le : ∀ ss' ∈ shapes, (ss'.bind parts).isSome → ss'.literals ≤ ss.literals

/-- What the loop carries for a best shape. -/
def carried (parts : List GoString) (best : Option ScopeShape) : ScopePath × Int :=
  match best with
  | none => ({}, -1)
  | some ss => ((ss.bind parts).getD {}, ss.literals)

theorem resolveFrom_some {sp best : ScopePath} {bestSpec : Int} (hbind : ss.bind parts = some sp) :
    resolveFrom parts (ss :: shapes) best bestSpec
      = if bestSpec < ss.literals then resolveFrom parts shapes sp ss.literals else resolveFrom parts shapes best bestSpec := by
  simp only [resolveFrom, hbind]

theorem resolveFrom_eq (best : Option ScopeShape) : resolveFrom parts shapes (carried parts best).1 (carried parts best).2
    = carried parts ((matching parts shapes).foldl (List.argAux fun b c => c.literals < b.literals) best) := by
  induction shapes generalizing best with
  | nil => rfl
  | cons ss shapes ih =>
    cases hbind : ss.bind parts with
    | none =>
      have hskip : matching parts (ss :: shapes) = matching parts shapes := List.filter_cons_of_neg (by simp [hbind])
      rw [hskip, ← ih best]
      simp only [resolveFrom, hbind]
    | some sp =>
      have htake : matching parts (ss :: shapes) = ss :: matching parts shapes := List.filter_cons_of_pos (by simp [hbind])
      have hcarried : carried parts (some ss) = (sp, (ss.literals : Int)) := by simp only [carried, hbind, Option.getD_some]
      have hmore := ih (some ss)
      rw [hcarried] at hmore
      rw [htake, List.foldl_cons]
      cases best with
      | none =>
        have hfirst : (-1 : Int) < ss.literals := by omega
        exact (resolveFrom_some hbind).trans ((if_pos hfirst).trans hmore)
      | some b =>
        by_cases hlt : b.literals < ss.literals
        · have hmore' : (b.literals : Int) < ss.literals := Int.ofNat_lt.2 hlt
          simp only [List.argAux, if_pos hlt]
          exact (resolveFrom_some hbind).trans ((if_pos hmore').trans hmore)
        · have hless : ¬ (b.literals : Int) < ss.literals := fun h => hlt (Int.ofNat_lt.1 h)
          simp only [List.argAux, if_neg hlt]
          exact (resolveFrom_some hbind).trans ((if_neg hless).trans (ih (some b)))

/-- The shape that the path is read with is the first of those with the most literals. -/
theorem parseScopePath_eq (hsplit : splitScopePath path = some parts) : parseScopePath shapes path
    = match (matching parts shapes).argmax ScopeShape.literals with
      | none => (({} : ScopePath), false)
      | some ss => ((ss.bind parts).getD {}, true) := by
  have hloop : resolveFrom parts shapes {} (-1) = carried parts ((matching parts shapes).argmax ScopeShape.literals) :=
    resolveFrom_eq none
  simp only [parseScopePath, hsplit, hloop]
  cases (matching parts shapes).argmax ScopeShape.literals with
  | none => rfl
  | some ss => simp only [carried, Int.natCast_nonneg, decide_true]

theorem mem_matching : ss ∈ matching parts shapes ↔ ss ∈ shapes ∧ (ss.bind parts).isSome := List.mem_filter

theorem specific_of_argmax (h : (matching parts shapes).argmax ScopeShape.literals = some ss) : ss.Specific parts shapes where
  mem := (mem_matching.1 (List.argmax_mem h)).1
  isSome := (mem_matching.1 (List.argmax_mem h)).2
  literals_le _ hss' hsome := List.le_of_mem_argmax (mem_matching.2 ⟨hss', hsome⟩) h

theorem ScopeShape.Specific.perm (h : ss.Specific parts shapes) (hperm : shapes.Perm shapes') : ss.Specific parts shapes' where
  mem := hperm.mem_iff.1 h.mem
  isSome := h.isSome
  literals_le ss' hss' hsome := h.literals_le ss' (hperm.mem_iff.2 hss') hsome

/-- A path is resolved if some shape matches it, with one of the most specific of these. -/
theorem parseScopePath_cases (shapes : List ScopeShape) (hsplit : splitScopePath path = some parts) :
    (parseScopePath shapes path = ({}, false) ∧ ∀ ss ∈ shapes, ss.bind parts = none)
    ∨ ∃ (ss : ScopeShape) (sp : ScopePath), ss.Specific parts shapes ∧ ss.bind parts = some sp ∧ parseScopePath shapes path = (sp, true) := by
  rw [parseScopePath_eq hsplit]
  cases hbest : (matching parts shapes).argmax ScopeShape.literals with
  | none =>
    refine .inl ⟨rfl, fun ss hss => ?_⟩
    have hnone : ss ∉ matching parts shapes := by rw [List.argmax_eq_none.1 hbest]; exact List.not_mem_nil
    cases hbind : ss.bind parts with
    | none => rfl
    | some sp => exact absurd (mem_matching.2 ⟨hss, by rw [hbind]; rfl⟩) hnone
  | some ss =>
    have hspecific := specific_of_argmax hbest
    obtain ⟨sp, hsp⟩ := Option.isSome_iff_exists.1 hspecific.isSome
    refine .inr ⟨ss, sp, hspecific, hsp, ?_⟩
    simp only [hsp, Option.getD_some]

/-- Of the most specific shapes the one at the head is taken. -/
theorem parseScopePath_head {sp : ScopePath} (hsplit : splitScopePath path = some parts)
    (h : ss.Specific parts (ss :: shapes)) (hbind : ss.bind parts = some sp) :
    parseScopePath (ss :: shapes) path = (sp, true) := by
  have htake : matching parts (ss :: shapes) = ss :: matching parts shapes := List.filter_cons_of_pos h.isSome
  rw [parseScopePath_eq hsplit, htake, List.argmax_cons]
  cases hrest : (matching parts shapes).argmax ScopeShape.literals with
  | none => simp only [hbind, Option.getD_some]
  | some ss' =>
    have hmem := mem_matching.1 (List.argmax_mem hrest)
    have hle := h.literals_le ss' (List.mem_cons_of_mem _ hmem.1) hmem.2
    simp only [if_neg (not_lt.2 hle), hbind, Option.getD_some]

end resolution

/-! ## Registrations -/

section registrations

variable {l l' : List GoString} {shapes : List ScopeShape} {ss : ScopeShape} {shape path : GoString} {parts : List GoString}

theorem sameScopeShape_iff {a b : ScopeShape} : sameScopeShape a b = true ↔ a = b := by
  simp only [sameScopeShape, decide_eq_true_eq]
  constructor
  · rintro ⟨-, hliterals, hsegs⟩
    cases a
    cases b
    cases hliterals
    cases hsegs
    rfl
  · rintro rfl
    exact ⟨rfl, rfl, rfl⟩

theorem afterRegister_eq : afterRegister shapes shape = match parseScopeShape shape with
    | .error _ => shapes
    | .ok ss => if ss ∈ shapes then shapes else shapes ++ [ss] := by
  have hany (ss : ScopeShape) : (shapes.any fun existing => sameScopeShape existing ss) = true ↔ ss ∈ shapes := by
    simp only [List.any_eq_true, sameScopeShape_iff, exists_eq_right]
  cases hparse : parseScopeShape shape with
  | error e => simp only [afterRegister, registerScopeShape, hparse]
  | ok ss => simp only [afterRegister, registerScopeShape, hparse, hany]

theorem mem_afterRegister : ss ∈ afterRegister shapes shape ↔ ss ∈ shapes ∨ parseScopeShape shape = .ok ss := by
  rw [afterRegister_eq]
  cases parseScopeShape shape with
  | error e => simp
  | ok ss' =>
    dsimp only
    split
    · rename_i hmem
      constructor
      · exact .inl
      · rintro (h | h)
        · exact h
        · cases h
          exact hmem
    · simp [eq_comm]

theorem nodup_afterRegister (h : shapes.Nodup) : (afterRegister shapes shape).Nodup := by
  rw [afterRegister_eq]
  cases parseScopeShape shape with
  | error e => exact h
  | ok ss' =>
    dsimp only
    split
    · exact h
    · rename_i hnew
      exact List.nodup_append.2 ⟨h, List.nodup_cons.2 ⟨List.not_mem_nil, List.nodup_nil⟩, fun a ha b hb => by
        rw [List.mem_singleton.1 hb]
        rintro rfl
        exact hnew ha⟩

theorem prefix_afterRegister : shapes <+: afterRegister shapes shape := by
  rw [afterRegister_eq]
  cases parseScopeShape shape with
  | error e => exact List.prefix_rfl
  | ok ss' =>
    dsimp only
    split
    · exact List.prefix_rfl
    · exact List.prefix_append ..

theorem foldl_afterRegister (h : shapes.Nodup) : (l.foldl afterRegister shapes).Nodup ∧ shapes <+: l.foldl afterRegister shapes
    ∧ ∀ ss, ss ∈ l.foldl afterRegister shapes ↔ ss ∈ shapes ∨ ∃ shape ∈ l, parseScopeShape shape = .ok ss := by
  induction l generalizing shapes with
  | nil => exact ⟨h, List.prefix_rfl, fun ss => by simp⟩
  | cons shape l ih =>
    have hafter : (afterRegister shapes shape).Nodup := nodup_afterRegister h
    obtain ⟨hnodup, hprefix, hmem⟩ := ih hafter
    refine ⟨hnodup, prefix_afterRegister.trans hprefix, fun ss => ?_⟩
    rw [List.foldl_cons, hmem, mem_afterRegister]
    simp only [List.mem_cons, exists_eq_or_imp, or_assoc]

theorem mem_registered : ss ∈ registered l ↔ ∃ shape ∈ l, parseScopeShape shape = .ok ss := by
  rw [registered, (foldl_afterRegister List.nodup_nil).2.2 ss]
  simp only [List.not_mem_nil, false_or]

/-- The same calls in another order leave the same shapes in another order. -/
theorem registered_perm (h : l.Perm l') : (registered l).Perm (registered l') := by
  have hnodup (l : List GoString) : (registered l).Nodup := (foldl_afterRegister List.nodup_nil).1
  refine (List.perm_ext_iff_of_nodup (hnodup l) (hnodup l')).2 fun ss => ?_
  simp only [mem_registered, h.mem_iff]

/-- Each of the shapes is the first in some order. -/
theorem exists_first (h : ss ∈ registered l) : ∃ l' rest, l'.Perm l ∧ registered l' = ss :: rest := by
  obtain ⟨shape, hshape, hparse⟩ := mem_registered.1 h
  have hfirst : afterRegister [] shape = [ss] := by
    rw [afterRegister_eq, hparse]
    rfl
  obtain ⟨-, ⟨rest, hrest⟩, -⟩ := foldl_afterRegister (l := l.erase shape) (List.nodup_cons.2 ⟨List.not_mem_nil (a := ss), List.nodup_nil⟩)
  refine ⟨shape :: l.erase shape, rest, (List.perm_cons_erase hshape).symm, ?_⟩
  rw [registered, List.foldl_cons, hfirst, ← hrest]
  rfl

end registrations

end Ploykit.Authz

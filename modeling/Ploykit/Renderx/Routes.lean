import Mathlib.Algebra.GroupWithZero.Nat
import Mathlib.Data.Finmap
import Ploykit.Lib.Worklist
import Ploykit.Platform.GoString

/-!
# Paths and routes

`cacheKey`, `keyToPath` and `pageFilePath`, the patterns of `platform/renderx/loader.go` and
`invalidate.go`, what `validateRouteSpec` accepts, `Registry` with the patterns that a change
of one affects, and `matchStatic` and `trailingSlashRedirect` of the handler. A map of
parameters that is nil is empty.
-/

namespace Ploykit.Renderx

open GoString Lib

abbrev Path := GoString

/-! ## Patterns -/

abbrev Params := Finmap fun _ : GoString => GoString

def colon : UInt8 := ':'.toUInt8

/-- The name of a parameter, where the segment of a pattern is one. -/
def paramName (seg : GoString) : Option GoString :=
  match seg with
  | c :: d :: name => if c = colon then some (d :: name) else none
  | _ => none

theorem paramName_eq_some {seg name : GoString} (h : paramName seg = some name) : seg = colon :: name := by
  unfold paramName at h
  split at h
  · split at h
    · rename_i hcolon
      cases h
      rw [hcolon]
    · cases h
  · cases h

def matchSegs : List GoString → List GoString → Params → Option Params
  | [], [], params => some params
  | ps :: pSegs, ss :: sSegs, params =>
    match paramName ps with
    | some name => if ss = [] then none else matchSegs pSegs sSegs (params.insert name ss)
    | none => if ps = ss then matchSegs pSegs sSegs params else none
  | _, _, _ => none

/-- `Match` -/
def matchPath (pattern path : Path) : Option Params := matchSegs pattern.elements path.elements ∅

def validParamValue (v : GoString) : Bool :=
  v ≠ [] && v.length ≤ 256 && v.all fun c => isAlnum c || c = '-'.toUInt8 || c = '_'.toUInt8

def validateParams (p : Params) : Bool := p.all fun _ v => validParamValue v

def hasParams (pattern : Path) : Bool := pattern.elements.any fun seg => (paramName seg).isSome

/-- `ExpandPath` takes every segment with a colon for a parameter. -/
def expandSeg (params : Params) (seg : GoString) : Option GoString :=
  match seg with
  | c :: name =>
    if c = colon then (params.lookup name).filter validParamValue else some seg
  | [] => some []

def expandPath (pattern : Path) (params : Params) : Option Path :=
  (pattern.elements.mapM (expandSeg params)).map join

/-! ## Keys and files -/

def indexKey : GoString := lit "index.html"

/-- The key of a canonical path. -/
def cacheKey (path : Path) : Option GoString :=
  if path = [slash] then some indexKey
  else if ¬ [slash] <+: path ∨ [slash] <:+ path ∨ [slash, slash] <:+: path then none
  else if (elements path.tail).all validParamValue then some path.tail
  else none

def keyToPath (key : GoString) : Path := if key = indexKey then [slash] else slash :: key

def pageFilePath (path : Path) : Option GoString :=
  (cacheKey path).map fun key => if key = indexKey then key else key ++ lit ".html"

section keys

variable {path key : GoString}

theorem validParamValue_ne_nil {v : GoString} (h : validParamValue v) : v ≠ [] := by
  rintro rfl
  cases h

theorem byte_of_validParamValue {v : GoString} (h : validParamValue v) {c : UInt8} (hc : c ∈ v) :
    isAlnum c ∨ c = '-'.toUInt8 ∨ c = '_'.toUInt8 := by
  simp only [validParamValue, Bool.and_eq_true, List.all_eq_true] at h
  simpa [or_assoc] using h.2 c hc

/-- Segments with a dot in them are no values. -/
theorem dot_notMem {v : GoString} (h : validParamValue v) : '.'.toUInt8 ∉ v := fun hc =>
  absurd (byte_of_validParamValue h hc) (by decide)

theorem indexKey_elements : elements indexKey = [indexKey] := elements_of_notMem (by decide)

theorem nil_mem_elements (h : [slash, slash] <:+: slash :: key) : [] ∈ elements key := by
  obtain ⟨a, b, hab⟩ := h
  cases a with
  | nil =>
    have hkey : key = slash :: b := (List.cons.inj hab).2.symm
    rw [hkey, elements_cons, if_pos rfl]
    exact List.mem_cons_self
  | cons c a =>
    have hkey : key = a ++ slash :: ([] ++ slash :: b) := by
      rw [← (List.cons.inj hab).2]
      simp
    rw [hkey, elements_append_slash, elements_append_slash]
    simp [elements]

theorem nil_mem_elements_of_suffix (h : [slash] <:+ slash :: key) : [] ∈ elements key := by
  obtain ⟨a, ha⟩ := h
  cases a with
  | nil =>
    have hkey : key = [] := (List.cons.inj ha).2.symm
    rw [hkey]
    simp [elements]
  | cons c a =>
    have hkey : key = a ++ slash :: [] := (List.cons.inj ha).2.symm
    rw [hkey, elements_append_slash]
    simp [elements]

theorem cacheKey_eq_some : cacheKey path = some key ↔
    (path = [slash] ∧ key = indexKey) ∨ path = slash :: key ∧ ∀ seg ∈ elements key, validParamValue seg := by
  unfold cacheKey
  split
  · rename_i hroot
    rw [hroot]
    constructor
    · intro h
      exact .inl ⟨rfl, (Option.some.inj h).symm⟩
    · rintro (⟨_, rfl⟩ | ⟨hkey, hsegs⟩)
      · rfl
      · rw [← (List.cons.inj hkey).2] at hsegs
        exact absurd rfl (validParamValue_ne_nil (hsegs [] (by simp [elements])))
  · rename_i hroot
    simp only [hroot, false_and, false_or]
    constructor
    · intro h
      split at h
      · cases h
      · rename_i hpath
        split at h
        · rename_i hsegs
          simp only [not_or, not_not] at hpath
          obtain ⟨rest, rfl⟩ := hpath.1
          cases h
          exact ⟨rfl, List.all_eq_true.1 hsegs⟩
        · cases h
    · rintro ⟨rfl, hsegs⟩
      have hnil : [] ∉ elements key := fun h => validParamValue_ne_nil (hsegs _ h) rfl
      rw [if_neg, List.tail_cons, if_pos (List.all_eq_true.2 hsegs)]
      simp only [not_or, not_not]
      exact ⟨List.prefix_append [slash] key, fun h => hnil (nil_mem_elements_of_suffix h),
        fun h => hnil (nil_mem_elements h)⟩

/-- The path of a key is the one that has it. -/
theorem keyToPath_cacheKey (h : cacheKey path = some key) : keyToPath key = path := by
  cases cacheKey_eq_some.1 h with
  | inl hroot => rw [hroot.1, hroot.2, keyToPath, if_pos rfl]
  | inr hpage =>
    have hne : key ≠ indexKey := by
      rintro rfl
      rw [indexKey_elements] at hpage
      exact absurd (hpage.2 indexKey List.mem_cons_self) (by decide)
    rw [hpage.1, keyToPath, if_neg hne]

theorem cacheKey_inj {path' : Path} (h : cacheKey path = some key) (h' : cacheKey path' = some key) : path = path' := by
  rw [← keyToPath_cacheKey h, keyToPath_cacheKey h']

end keys

/-! ## Routes -/

inductive Mode where
  | static
  | csr
  | other (name : String)
  deriving DecidableEq, Repr

inductive Hydrate where
  | unset
  | load
  | none
  | other (name : String)
  deriving DecidableEq, Repr

structure RouteSpec where
  path : Path
  pageID : String
  render : Mode
  hydrate : Hydrate
  deriving DecidableEq, Repr

inductive RouteErr where
  | path
  | pageID
  | render
  | hydrate
  | mustHydrate
  deriving DecidableEq, Repr

def validateRouteSpec (s : RouteSpec) : Except RouteErr Unit :=
  if s.path = [] ∨ s.path.head? ≠ some slash then .error .path
  else if s.pageID = "" then .error .pageID
  else
    match s.render with
    | .other _ => .error .render
    | render =>
      match s.hydrate with
      | .other _ => .error .hydrate
      | hydrate => if hydrate = .none ∧ render ≠ .static then .error .mustHydrate else .ok ()

def staticRoutes (routes : List RouteSpec) : List RouteSpec := routes.filter fun rt => rt.render = .static

/-! ## The registry -/

inductive LoadErr where
  | patternNotFound
  | pageNotFound
  | renderTimeout
  | other
  deriving DecidableEq, Repr

/-- The functions that are registered, over the properties that loaders return. -/
structure Registry (Props : Type) where
  paths : AList fun _ : Path => Except LoadErr (List Params)
  loaders : AList fun _ : Path => Params → Except LoadErr Props
  /-- The pages that depend on a pattern. -/
  deps : AList fun _ : Path => List Path

namespace Registry

variable {Props : Type} (r : Registry Props)

def dependents (pattern : Path) : List Path := (r.deps.lookup pattern).getD []

/-- All the pages that depend on something. -/
def allDependents : List Path := r.deps.entries.flatMap fun e => e.2

/-- `AffectedPatterns`. No pattern comes into the queue twice. -/
def affectedPatterns (pattern : Path) : List Path :=
  explore r.dependents (r.allDependents.length + 1) [pattern] [pattern]

end Registry

/-! ## The route of a path -/

def patternScore (pattern : Path) : Nat :=
  (pattern.elements.map fun seg => if (paramName seg).isSome then 1 else if seg ≠ [] then 3 else 0).sum

/-- The loop of `matchStatic`, with the best match so far and its score. -/
def matchFrom (path : Path) : List RouteSpec → Option (RouteSpec × Params × Nat) → Option (RouteSpec × Params)
  | [], best => best.map fun b => (b.1, b.2.1)
  | rt :: statics, best =>
    if rt.path = path then some (rt, ∅)
    else
      match (matchPath rt.path path).filter validateParams with
      | none => matchFrom path statics best
      | some params =>
        let score := patternScore rt.path
        if best.all fun b => b.2.2 < score then matchFrom path statics (some (rt, params, score))
        else matchFrom path statics best

def matchStatic (statics : List RouteSpec) (path : Path) : Option (RouteSpec × Params) := matchFrom path statics none

/-- The canonical path that a path with slashes at its end is redirected to. -/
def trailingSlashRedirect (path : Path) : Option Path :=
  if path.length < 2 ∨ path.getLast? ≠ some slash then none
  else
    let cleaned : GoString := path.rdropWhile (· = slash)
    if cleaned = [] then none
    else if (cleaned.elements.getLast elements_ne_nil).contains '.'.toUInt8 then none
    else some cleaned

end Ploykit.Renderx

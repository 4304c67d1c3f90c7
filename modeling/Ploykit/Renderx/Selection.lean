import Mathlib.Data.List.MinMax
import Ploykit.Lib.Checks
import Ploykit.Renderx.Routes

/-!
# The route that a path selects

`matchStatic` selects the first route that is the path literally, else the first of those that
match it best. `ExpandPath` is undone by `Match` for the patterns that the registry takes.
-/

namespace Ploykit.Renderx

open Lib GoString

/-! ## Selection -/

section selection

variable {statics : List RouteSpec} {path : Path} {rt : RouteSpec} {params : Params}

/-- The route as a candidate for the path, with the parameters that it reads there. -/
def candidate (path : Path) (rt : RouteSpec) : Option (RouteSpec × Params) :=
  ((matchPath rt.path path).filter validateParams).map fun params => (rt, params)

def candidates (statics : List RouteSpec) (path : Path) : List (RouteSpec × Params) := statics.filterMap (candidate path)

def score (c : RouteSpec × Params) : Nat := patternScore c.1.path

/-- The path is taken by the first route that is literally it, else by the first of the best matches. -/
inductive Selects (statics : List RouteSpec) (path : Path) : RouteSpec → Params → Prop
  | literal {rt : RouteSpec} (h : statics.find? (fun r => r.path = path) = some rt) : Selects statics path rt ∅
  | best {rt : RouteSpec} {params : Params} (hnone : statics.find? (fun r => r.path = path) = none)
      (h : (rt, params) ∈ (candidates statics path).argmax score) : Selects statics path rt params

theorem mem_candidates : (rt, params) ∈ candidates statics path ↔
    rt ∈ statics ∧ matchPath rt.path path = some params ∧ validateParams params := by
  simp only [candidates, List.mem_filterMap, candidate, Option.map_eq_some_iff, Option.filter_eq_some_iff]
  constructor
  · rintro ⟨r, hr, p, hp, heq⟩
    cases heq
    exact ⟨hr, hp⟩
  · rintro ⟨hr, hp⟩
    exact ⟨rt, hr, params, hp, rfl⟩

theorem matchFrom_literal (h : statics.find? (fun r => r.path = path) = some rt) (best : Option (RouteSpec × Params × Nat)) :
    matchFrom path statics best = some (rt, ∅) := by
  induction statics generalizing best with
  | nil => cases h
  | cons r statics ih =>
    unfold matchFrom
    split
    · rename_i hpath
      rw [List.find?_cons_of_pos (by simpa using hpath)] at h
      cases h
      rfl
    · rename_i hpath
      rw [List.find?_cons_of_neg (by simpa using hpath)] at h
      split
      · exact ih h best
      · dsimp only
        split
        · exact ih h _
        · exact ih h best

/-- Without a literal route the loop keeps the first of the best candidates. -/
theorem matchFrom_best (hnone : statics.find? (fun r => r.path = path) = none) (best : Option (RouteSpec × Params × Nat))
    (hbest : ∀ b, best = some b → b.2.2 = patternScore b.1.path) :
    matchFrom path statics best =
      (candidates statics path).foldl (List.argAux fun b c => score c < score b) (best.map fun b => (b.1, b.2.1)) := by
  induction statics generalizing best with
  | nil => rfl
  | cons r statics ih =>
    have hother : r.path ≠ path := fun h => by
      rw [List.find?_cons_of_pos (by simpa using h)] at hnone
      cases hnone
    rw [List.find?_cons_of_neg (by simpa using hother)] at hnone
    have hcand : candidates (r :: statics) path = (candidate path r).toList ++ candidates statics path := by
      rw [candidates, List.filterMap_cons]
      cases candidate path r <;> rfl
    rw [matchFrom, if_neg hother, hcand, List.foldl_append]
    cases hmatch : (matchPath r.path path).filter validateParams with
    | none =>
      simp only [candidate, hmatch]
      exact ih hnone best hbest
    | some params =>
      simp only [candidate, hmatch, Option.map_some, Option.toList_some, List.foldl_cons, List.foldl_nil]
      have hnew : ∀ b, some (r, params, patternScore r.path) = some b → b.2.2 = patternScore b.1.path := by
        rintro b hb
        cases hb
        rfl
      cases best with
      | none => exact ih hnone _ hnew
      | some b =>
        have hscore : score (b.1, b.2.1) = b.2.2 := (hbest b rfl).symm
        simp only [Option.all_some, Option.map_some, List.argAux, hscore, decide_eq_true_eq]
        change (if b.2.2 < patternScore r.path then _ else _) = List.foldl _ (if b.2.2 < patternScore r.path then _ else _) _
        split
        · exact ih hnone _ hnew
        · exact ih hnone (some b) hbest

/-- What `matchStatic` selects. -/
theorem matchStatic_eq_some : matchStatic statics path = some (rt, params) ↔ Selects statics path rt params := by
  unfold matchStatic
  cases hlit : statics.find? fun r => r.path = path with
  | some r =>
    rw [matchFrom_literal hlit]
    constructor
    · intro h
      cases h
      exact .literal hlit
    · intro h
      cases h with
      | literal h => rw [Option.some.inj (hlit.symm.trans h)]
      | best hnone _ => exact absurd (hlit.symm.trans hnone) (Option.some_ne_none r)
  | none =>
    rw [matchFrom_best hlit none fun b hb => (nomatch hb)]
    constructor
    · exact fun h => .best hlit h
    · intro h
      cases h with
      | literal h => exact absurd (h.symm.trans hlit) (Option.some_ne_none rt)
      | best _ h => exact h

/-- A path that some route matches selects one. -/
theorem exists_selects (hrt : rt ∈ statics) (hmatch : matchPath rt.path path = some params) (hvalid : validateParams params) :
    ∃ rt' params', Selects statics path rt' params' := by
  cases hlit : statics.find? fun r => r.path = path with
  | some r => exact ⟨r, ∅, .literal hlit⟩
  | none =>
    have hmem : (rt, params) ∈ candidates statics path := mem_candidates.2 ⟨hrt, hmatch, hvalid⟩
    have hsome : (candidates statics path).argmax score ≠ none := by
      rw [Ne, List.argmax_eq_none]
      exact List.ne_nil_of_mem hmem
    obtain ⟨c, hc⟩ := Option.ne_none_iff_exists'.1 hsome
    exact ⟨c.1, c.2, .best hlit hc⟩

end selection

/-! ## Patterns of the registry -/

def isWordName (s : GoString) : Bool := s ≠ [] && s.all fun c => isAlnum c || c = '_'.toUInt8

def validSeg : GoString → Bool
  | [] => false
  | c :: name => if c = colon then isWordName name else !(c :: name).contains colon

/-- The patterns that `RegisterPaths`, `RegisterLoader` and `RegisterDep` take. -/
def validPattern (pattern : Path) : Bool :=
  pattern = [slash] || ([slash] <+: pattern && (elements pattern.tail).all validSeg)

/-- Only such patterns have been registered with an enumeration. -/
def Registry.Registered {Props : Type} (r : Registry Props) : Prop := ∀ pattern ∈ r.paths, validPattern pattern

section patterns

variable {pattern loc : Path} {params acc : Params} {segs out : List GoString}

/-- The segment is text, or a parameter with a name. -/
def Proper (seg : GoString) : Prop := seg.head? = some colon → (paramName seg).isSome

theorem proper_of_validSeg {seg : GoString} (h : validSeg seg) : Proper seg := by
  intro hcolon
  cases seg with
  | nil => cases hcolon
  | cons c name =>
    cases hcolon
    rw [validSeg, if_pos rfl] at h
    cases name with
    | nil => cases h
    | cons d name => simp [paramName]

theorem proper_nil : Proper [] := fun h => (nomatch h)

theorem elements_slash (s : GoString) : elements (slash :: s) = [] :: elements s := by
  rw [elements_cons, if_pos rfl]

theorem proper_of_validPattern (h : validPattern pattern) : ∀ seg ∈ elements pattern, Proper seg := by
  rw [validPattern, Bool.or_eq_true] at h
  cases h with
  | inl hroot =>
    rw [of_decide_eq_true hroot, elements_slash]
    intro seg hseg
    cases hseg with
    | head => exact proper_nil
    | tail _ hseg =>
      rw [List.mem_singleton.1 hseg]
      exact proper_nil
  | inr hpage =>
    rw [Bool.and_eq_true] at hpage
    obtain ⟨rest, hrest⟩ := of_decide_eq_true hpage.1
    cases hrest
    rw [List.singleton_append, elements_slash]
    intro seg hseg
    cases hseg with
    | head => exact proper_nil
    | tail _ hseg => exact proper_of_validSeg (List.all_eq_true.1 hpage.2 seg hseg)

/-- What a segment becomes. -/
theorem expandSeg_eq_some {seg v : GoString} (hseg : Proper seg) (h : expandSeg params seg = some v) :
    (∃ name, paramName seg = some name ∧ params.lookup name = some v ∧ validParamValue v) ∨ paramName seg = none ∧ v = seg := by
  cases seg with
  | nil =>
    cases h
    exact .inr ⟨rfl, rfl⟩
  | cons c name =>
    simp only [expandSeg] at h
    split at h
    · rename_i hcolon
      cases hcolon
      obtain ⟨hlookup, hvalid⟩ := Option.filter_eq_some_iff.1 h
      obtain ⟨name', hname⟩ := Option.isSome_iff_exists.1 (hseg rfl)
      cases paramName_eq_some hname
      exact .inl ⟨name, hname, hlookup, hvalid⟩
    · rename_i hcolon
      cases h
      refine .inr ⟨Option.eq_none_iff_forall_ne_some.2 fun name' hname => hcolon ?_, rfl⟩
      exact (List.cons.inj (paramName_eq_some hname)).1

theorem foldl_and {α : Type} (f : α → Bool) (l : List α) (b : Bool) : l.foldl (fun x a => x && f a) b = (b && l.all f) := by
  induction l generalizing b with
  | nil => simp
  | cons a l ih => rw [List.foldl_cons, ih, List.all_cons, Bool.and_assoc]

theorem validateParams_iff : validateParams params ↔ ∀ name v, params.lookup name = some v → validParamValue v := by
  induction params using Finmap.induction_on with
  | H s =>
    have hall : validateParams s.toFinmap = s.entries.all fun e => validParamValue e.2 :=
      (foldl_and (fun e : Sigma fun _ : GoString => GoString => validParamValue e.2) s.entries true).trans (Bool.true_and _)
    rw [hall, List.all_eq_true]
    constructor
    · exact fun h name v hv => h ⟨name, v⟩ (AList.mem_lookup_iff.1 hv)
    · exact fun h e he => h e.1 e.2 (AList.mem_lookup_iff.2 he)

theorem validateParams_insert {name v : GoString} (hacc : validateParams acc) (hv : validParamValue v) :
    validateParams (acc.insert name v) := by
  refine validateParams_iff.2 fun name' v' h => ?_
  rcases eq_or_ne name' name with rfl | hne
  · rw [Finmap.lookup_insert] at h
    cases h
    exact hv
  · rw [Finmap.lookup_insert_of_ne _ hne] at h
    exact validateParams_iff.1 hacc name' v' h

/-- The segments of a location are those of its pattern, with the values put in. -/
abbrev Expands (params : Params) (segs out : List GoString) : Prop := List.Forall₂ (fun seg v => expandSeg params seg = some v) segs out

/-- A location is matched by its pattern, segment by segment. -/
theorem matchSegs_expand (h : Expands params segs out) (hproper : ∀ seg ∈ segs, Proper seg) (hacc : validateParams acc) :
    ∃ params', matchSegs segs out acc = some params' ∧ validateParams params' := by
  induction h generalizing acc with
  | nil => exact ⟨acc, rfl, hacc⟩
  | @cons seg v segs out hv _ ih =>
    obtain ⟨hseg, hsegs⟩ := List.forall_mem_cons.1 hproper
    rcases expandSeg_eq_some hseg hv with ⟨name, hname, _, hvalid⟩ | ⟨hname, rfl⟩
    · simp only [matchSegs, hname, if_neg (validParamValue_ne_nil hvalid)]
      exact ih hsegs (validateParams_insert hacc hvalid)
    · simp only [matchSegs, hname, if_true]
      exact ih hsegs hacc

theorem slash_notMem_value {v : GoString} (h : validParamValue v) : slash ∉ v := fun hc =>
  absurd (byte_of_validParamValue h hc) (by decide)

theorem Expands.slash_notMem (h : Expands params segs out) (hproper : ∀ seg ∈ segs, Proper seg)
    (hslash : ∀ seg ∈ segs, slash ∉ seg) : ∀ v ∈ out, slash ∉ v := by
  induction h with
  | nil => exact fun v hv => (nomatch hv)
  | @cons seg v segs out hv _ ih =>
    obtain ⟨hseg, hsegs⟩ := List.forall_mem_cons.1 hproper
    obtain ⟨hnone, hrest⟩ := List.forall_mem_cons.1 hslash
    refine List.forall_mem_cons.2 ⟨?_, ih hsegs hrest⟩
    rcases expandSeg_eq_some hseg hv with ⟨_, _, _, hvalid⟩ | ⟨_, rfl⟩
    · exact slash_notMem_value hvalid
    · exact hnone

/-- The segments of a location. -/
theorem expands_elements (hproper : ∀ seg ∈ elements pattern, Proper seg) (h : expandPath pattern params = some loc) :
    Expands params (elements pattern) (elements loc) := by
  obtain ⟨out, hout, rfl⟩ := Option.map_eq_some_iff.1 h
  have hexpands : Expands params (elements pattern) out := Checks.mapM_some.1 hout
  have hne : out ≠ [] := by
    rintro rfl
    exact elements_ne_nil (List.forall₂_nil_right_iff.1 hexpands)
  rwa [elements_join (hexpands.slash_notMem hproper slash_notMem_elements) hne]

/-- `Match` reads back what `ExpandPath` has written. -/
theorem matchPath_expand (hproper : ∀ seg ∈ elements pattern, Proper seg) (h : expandPath pattern params = some loc) :
    ∃ params', matchPath pattern loc = some params' ∧ validateParams params' :=
  matchSegs_expand (expands_elements hproper h) hproper (by decide)

/-- The location of a pattern without values is the pattern. -/
theorem expandPath_empty (h : expandPath pattern ∅ = some loc) : loc = pattern := by
  obtain ⟨out, hout, rfl⟩ := Option.map_eq_some_iff.1 h
  have hself : ∀ seg v : GoString, expandSeg ∅ seg = some v → seg = v := by
    intro seg v hv
    cases seg with
    | nil => exact Option.some.inj hv
    | cons c name =>
      simp only [expandSeg] at hv
      split at hv
      · cases hv
      · exact Option.some.inj hv
  have hsame : elements pattern = out := by
    rw [← List.forall₂_eq_eq_eq]
    exact (Checks.mapM_some.1 hout).imp hself
  rw [← hsame, join_elements]

end patterns

/-! ## Locations -/

section locations

variable {statics : List RouteSpec} {rt : RouteSpec} {params : Params} {loc : Path} {Props : Type} {r : Registry Props}

/-- The path of a route selects some route. -/
theorem exists_selects_path (hrt : rt ∈ statics) : ∃ rt' params', Selects statics rt.path rt' params' := by
  have hfound : (statics.find? fun r => r.path = rt.path).isSome := List.find?_isSome.2 ⟨rt, hrt, decide_eq_true rfl⟩
  obtain ⟨rt', hrt'⟩ := Option.isSome_iff_exists.1 hfound
  exact ⟨rt', ∅, .literal hrt'⟩

/-- A location of a registered pattern selects some route. -/
theorem exists_selects_location (hreg : r.Registered) (hrt : rt ∈ statics) (hpattern : rt.path ∈ r.paths)
    (hloc : expandPath rt.path params = some loc) : ∃ rt' params', Selects statics loc rt' params' := by
  obtain ⟨params', hmatch, hvalid⟩ := matchPath_expand (proper_of_validPattern (hreg _ hpattern)) hloc
  exact exists_selects hrt hmatch hvalid

end locations

/-! ### A small site -/

/-- The static page "p" at a path. -/
def staticPage (path : String) : RouteSpec := ⟨lit path, "p", .static, .unset⟩

/-- The slug "x" for every post, and no loaders. -/
def posts : Registry Unit := ⟨⟨[⟨lit "/blog/:slug", .ok [Finmap.singleton (lit "slug") (lit "x")]⟩], by simp⟩, ∅, ∅⟩

theorem posts_registered : posts.Registered := by
  intro pattern hpattern
  have hmem : pattern = lit "/blog/:slug" := List.mem_singleton.1 (AList.mem_keys.1 hpattern)
  rw [hmem]
  decide

end Ploykit.Renderx

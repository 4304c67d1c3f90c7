import Ploykit.Lib.Leaders
import Ploykit.Renderx.Selection

/-!
# Hydration

`matchPageByPath` of `packages/runtime/src/match.ts` looks for the owner of the embedded props
among all the pages, those that the server never renders included. `matchStatic` looks among the
static ones. Each keeps the first of the most specific pages that it lets through.
-/

namespace Ploykit.Renderx

open Lib GoString

/-! ## The matcher of the browser -/

def star : GoString := lit "*"

def splitSegments (value : GoString) : List GoString := value.elements.filter fun segment => segment ≠ []

def isParamSegment (segment : GoString) : Bool := segment.length > 1 && segment.head? = some colon

def countStaticSegments (segments : List GoString) : Nat := segments.countP fun segment => segment ≠ star && !isParamSegment segment

def isCatchAll (segments : List GoString) : Bool := segments.getLast? = some star

def segmentMatches (pattern path : GoString) : Bool := isParamSegment pattern || pattern = path

def matchesPattern (pattern path : List GoString) : Bool :=
  if isCatchAll pattern then
    if path.length < pattern.length then false
    else (pattern.dropLast.zip path).all fun s => segmentMatches s.1 s.2
  else if path.length ≠ pattern.length then false
  else (pattern.zip path).all fun s => segmentMatches s.1 s.2

def isMoreSpecific (aSegments : List GoString) (aStaticCount : Nat) (bSegments : List GoString) (bStaticCount : Nat) : Bool :=
  if aStaticCount ≠ bStaticCount then aStaticCount > bStaticCount
  else if aSegments.length ≠ bSegments.length then aSegments.length > bSegments.length
  else !isCatchAll aSegments && isCatchAll bSegments

/-- The loop of `matchPageByPath`, with the page of the best pattern so far, its segments and how many of them are static. -/
def matchPageFrom (pathSegments : List GoString) : List RouteSpec → Option (String × List GoString × Nat) → Option String
  | [], best => best.map fun b => b.1
  | page :: pages, best =>
    let patternSegments := splitSegments page.path
    if !matchesPattern patternSegments pathSegments then matchPageFrom pathSegments pages best
    else
      let staticCount := countStaticSegments patternSegments
      if best.all fun b => isMoreSpecific patternSegments staticCount b.2.1 b.2.2 then
        matchPageFrom pathSegments pages (some (page.pageID, patternSegments, staticCount))
      else matchPageFrom pathSegments pages best

def matchPageByPath (pathname : GoString) (pages : List RouteSpec) : Option String :=
  matchPageFrom (splitSegments pathname) pages none

/-! ## The most specific page -/

/-- The order of `isMoreSpecific`. -/
def specificity (page : RouteSpec) : ℕ ×ₗ ℕ ×ₗ Bool :=
  let segments := splitSegments page.path
  toLex (countStaticSegments segments, toLex (segments.length, !isCatchAll segments))

/-- The server may render the page at the path. -/
def serverMatches (path : Path) (page : RouteSpec) : Bool := page.render = .static && (candidate path page).isSome

/-- The browser may give the props to the page. -/
def clientMatches (pathname : GoString) (page : RouteSpec) : Bool :=
  matchesPattern (splitSegments page.path) (splitSegments pathname)

section client

variable {pages : List RouteSpec} {pathname : GoString} {a b : RouteSpec}

theorem isMoreSpecific_iff : isMoreSpecific (splitSegments a.path) (countStaticSegments (splitSegments a.path))
    (splitSegments b.path) (countStaticSegments (splitSegments b.path)) ↔ specificity b < specificity a := by
  unfold isMoreSpecific specificity
  simp only [Prod.Lex.toLex_lt_toLex, Bool.lt_iff, Bool.not_eq_false', Bool.not_eq_true']
  split
  · rename_i hstatic
    simp only [decide_eq_true_eq, Ne.symm hstatic, false_and, or_false]
  · rename_i hstatic
    simp only [not_not] at hstatic
    rw [hstatic]
    split
    · rename_i hlen
      simp only [decide_eq_true_eq, Ne.symm hlen, lt_irrefl, false_or, true_and, false_and, or_false]
    · rename_i hlen
      simp only [not_not] at hlen
      rw [hlen]
      simp [and_comm]

/-- The page that `matchPageFrom` keeps. -/
def kept (page : RouteSpec) : String × List GoString × Nat :=
  (page.pageID, splitSegments page.path, countStaticSegments (splitSegments page.path))

/-- The loop keeps the first of the most specific pages. -/
theorem matchPageFrom_eq (best : Option RouteSpec) :
    matchPageFrom (splitSegments pathname) pages (best.map kept) =
      ((pages.filter (clientMatches pathname)).foldl (List.argAux fun b c => specificity c < specificity b) best).map RouteSpec.pageID := by
  induction pages generalizing best with
  | nil => cases best <;> rfl
  | cons page pages ih =>
    unfold matchPageFrom
    cases hmatch : clientMatches pathname page with
    | false =>
      rw [List.filter_cons_of_neg (by simp [hmatch]), ← ih best]
      exact if_pos (by rw [show matchesPattern _ _ = false from hmatch]; rfl)
    | true =>
      rw [List.filter_cons_of_pos hmatch, List.foldl_cons]
      refine (if_neg (by rw [show matchesPattern _ _ = true from hmatch]; decide)).trans ?_
      cases best with
      | none => exact ih (some page)
      | some b =>
        simp only [Option.map_some, Option.all_some, kept, isMoreSpecific_iff, List.argAux]
        split
        · exact ih (some page)
        · exact ih (some b)

/-- `matchPageByPath` returns the first of the most specific pages that match. -/
theorem matchPageByPath_eq :
    matchPageByPath pathname pages = ((pages.filter (clientMatches pathname)).argmax specificity).map RouteSpec.pageID :=
  matchPageFrom_eq none

end client

/-! ## The page of the server -/

section server

variable {pages : List RouteSpec} {path : Path} {key : GoString} {page rt a b : RouteSpec} {params : Params}

/-- The segment of a pattern lets the segment of a path through. -/
def Fits (ps ss : GoString) : Prop := if (paramName ps).isSome then ss ≠ [] else ps = ss

theorem matchSegs_isSome {ps ss : List GoString} : (matchSegs ps ss params).isSome ↔ List.Forall₂ Fits ps ss := by
  induction ps generalizing ss params with
  | nil => cases ss <;> simp [matchSegs]
  | cons p ps ih =>
    cases ss with
    | nil => simp [matchSegs]
    | cons s ss =>
      rw [List.forall₂_cons, Fits]
      cases hname : paramName p with
      | none =>
        simp only [matchSegs, hname]
        split
        · rename_i heq
          simp [heq, ih]
        · rename_i hne
          simp [hne]
      | some name =>
        simp only [matchSegs, hname]
        split
        · rename_i hnil
          simp [hnil]
        · rename_i hne
          simp [hne, ih]

theorem isParamSegment_eq (seg : GoString) : isParamSegment seg = (paramName seg).isSome := by
  match seg with
  | [] => rfl
  | [c] => rfl
  | c :: d :: name =>
    simp only [isParamSegment, paramName, List.length_cons, List.head?_cons, Option.some.injEq]
    split
    · rename_i hcolon
      simp [hcolon]
    · rename_i hcolon
      simp [hcolon]

/-- A canonical path is made of values. -/
theorem values_of_cacheKey (hkey : cacheKey path = some key) : ∀ seg ∈ path.elements, seg ≠ [] → validParamValue seg := by
  cases cacheKey_eq_some.1 hkey with
  | inl hroot =>
    rw [hroot.1]
    decide
  | inr hpage =>
    rw [hpage.1, elements_slash, List.forall_mem_cons]
    exact ⟨fun h => absurd rfl h, fun seg hseg _ => hpage.2 seg hseg⟩

/-- What a pattern reads from a canonical path are values. -/
theorem validateParams_matchSegs {ps ss : List GoString} {acc : Params} (hvalues : ∀ seg ∈ ss, seg ≠ [] → validParamValue seg)
    (hacc : validateParams acc) (h : matchSegs ps ss acc = some params) : validateParams params := by
  induction ps generalizing ss acc with
  | nil =>
    cases ss with
    | nil =>
      cases h
      exact hacc
    | cons s ss => cases h
  | cons p ps ih =>
    cases ss with
    | nil => cases h
    | cons s ss =>
      obtain ⟨hs, hss⟩ := List.forall_mem_cons.1 hvalues
      cases hname : paramName p with
      | none =>
        simp only [matchSegs, hname] at h
        split at h
        · exact ih hss hacc h
        · cases h
      | some name =>
        simp only [matchSegs, hname] at h
        split at h
        · cases h
        · rename_i hne
          exact ih hss (validateParams_insert hacc (hs hne)) h

/-- The candidates for a canonical path are the patterns that fit it. -/
theorem candidate_isSome (hkey : cacheKey path = some key) :
    (candidate path page).isSome ↔ List.Forall₂ Fits page.path.elements path.elements := by
  have hvalid : ∀ params, matchPath page.path path = some params → validateParams params := fun params h =>
    validateParams_matchSegs (values_of_cacheKey hkey) (by decide) h
  rw [← @matchSegs_isSome ∅, candidate, Option.isSome_map]
  change _ ↔ (matchPath page.path path).isSome
  cases hmatch : matchPath page.path path with
  | none => simp
  | some params => simp [hvalid params hmatch]

/-! ### Scores -/

theorem star_notMem_elements (hkey : cacheKey path = some key) : star ∉ path.elements := fun h =>
  absurd (values_of_cacheKey hkey star h (by decide)) (by decide)

/-- A segment that fits another than the star is another itself. -/
theorem star_notMem_pattern {ps ss : List GoString} (hfits : List.Forall₂ Fits ps ss) (hstar : star ∉ ss) : star ∉ ps := by
  induction hfits with
  | nil => exact hstar
  | @cons p s ps ss hp _ ih =>
    rw [List.mem_cons, not_or] at hstar ⊢
    refine ⟨fun heq => hstar.1 ?_, ih hstar.2⟩
    cases heq
    exact hp

/-- A pattern that fits has as many segments as the path. -/
theorem length_of_fits {ps ss : List GoString} (hfits : List.Forall₂ Fits ps ss) :
    (ps.filter fun seg => seg ≠ []).length = (ss.filter fun seg => seg ≠ []).length := by
  induction hfits with
  | nil => rfl
  | @cons p s ps ss hp _ ih =>
    have hnil : p = [] ↔ s = [] := by
      unfold Fits at hp
      split at hp
      · rename_i hname
        refine iff_of_false (fun h => ?_) hp
        rw [h] at hname
        cases hname
      · rw [hp]
    simp only [List.filter_cons, ne_eq, hnil, decide_not]
    split
    · simpa using ih
    · simpa using ih

theorem patternScore_eq (hstar : star ∉ page.path.elements) :
    patternScore page.path = (splitSegments page.path).length + 2 * countStaticSegments (splitSegments page.path) := by
  unfold patternScore splitSegments countStaticSegments
  generalize page.path.elements = segs at hstar ⊢
  induction segs with
  | nil => rfl
  | cons seg segs ih =>
    rw [List.mem_cons, not_or] at hstar
    rw [List.map_cons, List.sum_cons, ih hstar.2]
    cases hname : (paramName seg).isSome with
    | true =>
      have hne : seg ≠ [] := by
        rintro rfl
        cases hname
      rw [List.filter_cons_of_pos (by simpa using hne), List.countP_cons_of_neg (by simp [isParamSegment_eq, hname]), List.length_cons]
      simp only [if_true]
      omega
    | false =>
      cases seg with
      | nil => simp
      | cons c seg =>
        rw [List.filter_cons_of_pos (by simp), List.countP_cons_of_pos (by simpa [isParamSegment_eq, hname] using Ne.symm hstar.1),
          List.length_cons]
        simp only [Bool.false_eq_true, if_false, ne_eq, reduceCtorEq, not_false_eq_true, if_true]
        omega

/-- A pattern that fits is as specific as it has static segments. -/
theorem specificity_of_fits (hkey : cacheKey path = some key) (hfits : List.Forall₂ Fits page.path.elements path.elements) :
    specificity page = toLex (countStaticSegments (splitSegments page.path), toLex ((splitSegments path).length, true)) := by
  have hstar : star ∉ splitSegments page.path := fun h =>
    star_notMem_pattern hfits (star_notMem_elements hkey) (List.mem_of_mem_filter h)
  have hcatch : isCatchAll (splitSegments page.path) = false := decide_eq_false fun h => hstar (List.mem_of_getLast? h)
  have hlen : (splitSegments page.path).length = (splitSegments path).length := length_of_fits hfits
  unfold specificity
  simp only [hlen, hcatch, Bool.not_false]

/-- Of the candidates, the two sides prefer the same. -/
theorem specificity_lt_iff (hkey : cacheKey path = some key) (ha : serverMatches path a) (hb : serverMatches path b) :
    patternScore a.path < patternScore b.path ↔ specificity a < specificity b := by
  have hfits : ∀ {page}, serverMatches path page → List.Forall₂ Fits page.path.elements path.elements := fun h =>
    (candidate_isSome hkey).1 (Bool.and_eq_true_iff.1 h).2
  have hscore : ∀ {page}, serverMatches path page →
      patternScore page.path = (splitSegments path).length + 2 * countStaticSegments (splitSegments page.path) := by
    intro page h
    have hlen : (splitSegments page.path).length = (splitSegments path).length := length_of_fits (hfits h)
    rw [patternScore_eq (star_notMem_pattern (hfits h) (star_notMem_elements hkey)), hlen]
  rw [hscore ha, hscore hb, specificity_of_fits hkey (hfits ha), specificity_of_fits hkey (hfits hb), Prod.Lex.toLex_lt_toLex]
  simp only [lt_irrefl, and_false, or_false]
  omega

/-- All the segments of the path itself are static. -/
theorem static_path (hkey : cacheKey path = some key) :
    countStaticSegments (splitSegments path) = (splitSegments path).length := by
  refine List.countP_eq_length.2 fun seg hseg => ?_
  obtain ⟨hmem, hne⟩ := List.mem_filter.1 hseg
  have hvalue : validParamValue seg := values_of_cacheKey hkey seg hmem (of_decide_eq_true hne)
  have hstar : seg ≠ star := by
    rintro rfl
    exact absurd hvalue (by decide)
  have hname : paramName seg = none := Option.eq_none_iff_forall_ne_some.2 fun name hname => by
    have hcolon : colon ∈ seg := paramName_eq_some hname ▸ List.mem_cons_self
    exact absurd (byte_of_validParamValue hvalue hcolon) (by decide)
  simp [hstar, isParamSegment_eq, hname]

/-- A pattern without parameters fits only itself. -/
theorem eq_of_static (hfits : List.Forall₂ Fits page.path.elements path.elements)
    (hstatic : (splitSegments page.path).length ≤ countStaticSegments (splitSegments page.path)) : page.path = path := by
  have hall : ∀ seg ∈ page.path.elements, paramName seg = none := by
    intro seg hseg
    cases hname : paramName seg with
    | none => rfl
    | some name =>
      have hmem : seg ∈ splitSegments page.path := List.mem_filter.2 ⟨hseg, by simp [paramName_eq_some hname]⟩
      have hcount := List.countP_eq_length.1 (List.countP_le_length.antisymm hstatic) seg hmem
      simp [isParamSegment_eq, hname] at hcount
  refine elements_inj ?_
  rw [← List.forall₂_eq_eq_eq]
  refine ((List.forall₂_and_left page.path.elements path.elements).2 ⟨hall, hfits⟩).imp fun ps ss ⟨hname, hp⟩ => ?_
  rwa [Fits, hname] at hp

/-! ### The selected page -/

theorem serverMatches_literal (hkey : cacheKey path = some key) (hstatic : page.render = .static) (hpath : page.path = path) :
    serverMatches path page := by
  have hself : ∀ seg ∈ path.elements, Fits seg seg := fun seg hseg => by
    unfold Fits
    split
    · rename_i hname
      rintro rfl
      cases hname
    · rfl
  refine Bool.and_eq_true_iff.2 ⟨decide_eq_true hstatic, (candidate_isSome hkey).2 ?_⟩
  rw [hpath]
  exact List.forall₂_same.2 hself

/-- The server renders the first of the most specific pages that it lets through. -/
theorem selects_argmax (hkey : cacheKey path = some key) (h : Selects (staticRoutes pages) path rt params) :
    rt ∈ (pages.filter (serverMatches path)).argmax specificity := by
  have hfits : ∀ page ∈ pages.filter (serverMatches path), List.Forall₂ Fits page.path.elements path.elements := fun page hmem =>
    (candidate_isSome hkey).1 (Bool.and_eq_true_iff.1 (List.mem_filter.1 hmem).2).2
  cases h with
  | literal hfind =>
    have hpath : rt.path = path := by simpa using List.find?_some hfind
    have hlit : ∀ page : RouteSpec, (serverMatches path page ∧ decide (page.path = path) = true) ↔
        (decide (page.render = .static) = true ∧ decide (page.path = path) = true) := fun page =>
      and_congr_left fun hp => ⟨fun hs => (Bool.and_eq_true_iff.1 hs).1,
        fun hs => serverMatches_literal hkey (of_decide_eq_true hs) (of_decide_eq_true hp)⟩
    have hfind' : (pages.filter (serverMatches path)).find? (fun page => page.path = path) = some rt := by
      rw [staticRoutes, List.find?_filter] at hfind
      rw [List.find?_filter, ← hfind]
      simp only [hlit]
    have hrt : specificity rt = toLex ((splitSegments path).length, toLex ((splitSegments path).length, true)) := by
      rw [specificity_of_fits hkey (hfits rt (List.mem_of_find?_eq_some hfind')), hpath, static_path hkey]
    refine mem_argmax_of_find hfind' (fun page hmem => ?_) fun page hmem hle => ?_
    · rw [hrt, specificity_of_fits hkey (hfits page hmem), Prod.Lex.toLex_le_toLex]
      have hlen : (splitSegments page.path).length = (splitSegments path).length := length_of_fits (hfits page hmem)
      have hcount : countStaticSegments (splitSegments page.path) ≤ (splitSegments path).length := hlen ▸ List.countP_le_length
      exact hcount.lt_or_eq.imp_right fun heq => ⟨heq, le_rfl⟩
    · rw [hrt, specificity_of_fits hkey (hfits page hmem), Prod.Lex.toLex_le_toLex] at hle
      have hlen : (splitSegments page.path).length = (splitSegments path).length := length_of_fits (hfits page hmem)
      have hcount : (splitSegments path).length ≤ countStaticSegments (splitSegments page.path) :=
        hle.elim Nat.le_of_lt fun heq => heq.1.le
      exact decide_eq_true (eq_of_static (hfits page hmem) (hlen ▸ hcount))
  | best _ hbest =>
    have hscan : (candidates (staticRoutes pages) path).argmax score =
        (((staticRoutes pages).filter fun page => (candidate path page).isSome).argmax fun page => patternScore page.path).bind
          (candidate path) := by
      refine argmax_filterMap _ fun page _ c hc => ?_
      obtain ⟨_, _, rfl⟩ := Option.map_eq_some_iff.1 hc
      rfl
    rw [hscan, staticRoutes, List.filter_filter] at hbest
    obtain ⟨page, hpage, hcand⟩ := Option.bind_eq_some_iff.1 hbest
    obtain ⟨_, _, heq⟩ := Option.map_eq_some_iff.1 hcand
    cases heq
    rw [← argmax_congr fun a ha b hb => specificity_lt_iff hkey (List.mem_filter.1 ha).2 (List.mem_filter.1 hb).2]
    have hsame : (fun page : RouteSpec => (candidate path page).isSome && decide (page.render = .static)) = serverMatches path :=
      funext fun page => Bool.and_comm _ _
    rwa [← hsame]

/-- The two sides agree on the page exactly where every page that only one of them lets through ranks behind one that both do.
A page ranks by its specificity, those of one specificity by which is declared first. -/
theorem same_page_iff {pathname : GoString} (hids : (pages.map RouteSpec.pageID).Nodup) (hkey : cacheKey path = some key)
    (hsel : matchStatic (staticRoutes pages) path = some (rt, params)) :
    matchPageByPath pathname pages = some rt.pageID ↔
      ∀ page ∈ pages, serverMatches path page ≠ clientMatches pathname page →
        ∃ other ∈ pages, serverMatches path other ∧ clientMatches pathname other ∧
          rank pages specificity page < rank pages specificity other := by
  have hserver : rt ∈ (pages.filter (serverMatches path)).argmax specificity := selects_argmax hkey (matchStatic_eq_some.1 hsel)
  have hrt : rt ∈ pages := List.mem_of_mem_filter (List.argmax_mem hserver)
  rw [← leader_agrees hserver, matchPageByPath_eq, Option.map_eq_some_iff]
  constructor
  · rintro ⟨page, hpage, hid⟩
    have hmem : page ∈ pages := List.mem_of_mem_filter (List.argmax_mem hpage)
    rwa [← List.inj_on_of_nodup_map hids hmem hrt hid]
  · exact fun hclient => ⟨rt, hclient, rfl⟩

end server

/-! ### A blog with an editor -/

/-- Posts that the server renders, and an editor that it does not. -/
def withEditor : List RouteSpec := [⟨lit "/blog/:slug", "post", .static, .load⟩, ⟨lit "/blog/new", "new-post", .csr, .load⟩]

theorem same_page_hello : matchPageByPath (lit "/blog/hello") withEditor = some "post" := by
  have hkey : cacheKey (lit "/blog/hello") = some (lit "blog/hello") := by decide
  have hsel : matchStatic (staticRoutes withEditor) (lit "/blog/hello") =
      some (⟨lit "/blog/:slug", "post", .static, .load⟩, Finmap.singleton (lit "slug") (lit "hello")) := rfl
  exact (same_page_iff (by decide) hkey hsel).2 (by decide)

/-- The editor is opened with the props of a post that is called new. -/
theorem editor_shadowed :
    (∀ page ∈ withEditor, validateRouteSpec page = .ok ()) ∧ (withEditor.map RouteSpec.pageID).Nodup ∧ (cacheKey (lit "/blog/new")).isSome ∧
      (matchStatic (staticRoutes withEditor) (lit "/blog/new")).map (fun r => r.1.pageID) = some "post" ∧
      matchPageByPath (lit "/blog/new") withEditor = some "new-post" := by
  refine ⟨?_, by decide, by decide, by decide, by decide⟩
  rw [withEditor, List.forall_mem_cons, List.forall_mem_singleton]
  exact ⟨rfl, rfl⟩

end Ploykit.Renderx

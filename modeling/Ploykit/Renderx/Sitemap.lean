import Ploykit.Renderx.Selection

/-!
# The sitemap

`sitemapEntries` of `platform/renderx/seo.go` and `Reconcile` of the registry. Of a registered
pattern that is no route, `Reconcile` names the pattern alone here.
-/

namespace Ploykit.Renderx

open Lib GoString

/-! ## Reconcile -/

inductive ReconcileErr where
  | missingPaths (pattern : Path) (pageID : String)
  | patternMismatch (pattern : Path)
  deriving DecidableEq

namespace Registry

variable {Props : Type} (r : Registry Props)

/-- The patterns that something is registered for, in order. -/
def registered : List Path :=
  (r.paths.keys ++ r.loaders.keys ++ r.deps.keys ++ r.allDependents).dedup.mergeSort fun a b => a ≤ b

/-- `Reconcile`, which joins all errors. -/
def reconcile (routes : List RouteSpec) : List ReconcileErr :=
  (routes.filter fun rt => rt.render = .static && hasParams rt.path && (r.paths.lookup rt.path).isNone).map
      (fun rt => .missingPaths rt.path rt.pageID) ++
    (r.registered.filter fun pattern => !routes.any fun rt => rt.path = pattern).map .patternMismatch

end Registry

/-! ## Entries -/

structure SitemapOptions where
  filter : Option (RouteSpec → Path → Params → Bool)
  lastmod : Option (RouteSpec → Path → Params → Option Int)

inductive SitemapErr where
  | missingPaths (pattern : Path)
  | paths (pattern : Path) (e : LoadErr)

/-- A location, and what it is listed for. -/
structure Listed where
  route : RouteSpec
  location : Path
  params : Params

/-- An entry. The time 0 is none. -/
structure SitemapEntry where
  loc : GoString
  lastmod : Int

namespace SitemapOptions

variable {Props : Type} (opts : SitemapOptions) (reg : Registry Props)

def admits (rt : RouteSpec) (loc : Path) (params : Params) : Bool := opts.filter.all fun f => f rt loc params

/-- What is added for one route. -/
def routeEntries (rt : RouteSpec) : Except SitemapErr (List Listed) :=
  if rt.render ≠ .static then .ok []
  else if !hasParams rt.path then .ok (if opts.admits rt rt.path ∅ then [⟨rt, rt.path, ∅⟩] else [])
  else
    match reg.paths.lookup rt.path with
    | none => .error (.missingPaths rt.path)
    | some (.error e) => .error (.paths rt.path e)
    | some (.ok instances) => .ok (instances.filterMap fun params =>
        match expandPath rt.path params with
        | none => none
        | some loc => if opts.admits rt loc params then some ⟨rt, loc, params⟩ else none)

def listed (routes : List RouteSpec) : Except SitemapErr (List Listed) := List.flatten <$> routes.mapM (opts.routeEntries reg)

def add (base : GoString) (l : Listed) : SitemapEntry where
  loc := base ++ l.location
  lastmod := (opts.lastmod.bind fun f => f l.route l.location l.params).getD 0

def sitemapEntries (baseURL : GoString) (routes : List RouteSpec) : Except SitemapErr (List SitemapEntry) :=
  match opts.listed reg routes with
  | .error e => .error e
  | .ok ls => .ok ((ls.map (opts.add (trimSuffix baseURL [slash]))).mergeSort fun a b => a.loc ≤ b.loc)

end SitemapOptions

/-! ## Serving what is listed -/

/-- Every location is listed once, and a request for it is rendered by the route that it is listed for. -/
structure Servable (routes : List RouteSpec) (ls : List Listed) (entries : List SitemapEntry) : Prop where
  once : (entries.map SitemapEntry.loc).Nodup
  stays : ∀ l ∈ ls, trailingSlashRedirect l.location = none
  matched : ∀ l ∈ ls, ∃ params, matchStatic (staticRoutes routes) l.location = some (l.route, params)
  cached : ∀ l ∈ ls, (cacheKey l.location).isSome

/-- The pattern is the root, or every segment of it is a parameter or could be the value of one. -/
def CanonicalPattern (pattern : Path) : Prop :=
  pattern = [slash] ∨ ∃ rest, pattern = slash :: rest ∧ ∀ seg ∈ elements rest, (paramName seg).isSome ∨ validParamValue seg

/-- The locations are distinct and made from canonical patterns, and no other route takes one of them. -/
structure Advertisable (routes : List RouteSpec) (ls : List Listed) : Prop where
  distinct : (ls.map Listed.location).Nodup
  canonical : ∀ l ∈ ls, CanonicalPattern l.route.path
  own : ∀ l ∈ ls, ∀ rt params, Selects (staticRoutes routes) l.location rt params → rt = l.route

section canonical

variable {pattern path : Path} {params : Params} {segs out : List GoString} {loc : Path}

theorem cacheKey_slash {key : GoString} : (cacheKey (slash :: key)).isSome ↔ key = [] ∨ ∀ seg ∈ elements key, validParamValue seg := by
  constructor
  · intro h
    obtain ⟨key', hkey⟩ := Option.isSome_iff_exists.1 h
    cases cacheKey_eq_some.1 hkey with
    | inl hroot => exact .inl (List.cons.inj hroot.1).2
    | inr hpage =>
      rw [(List.cons.inj hpage.1).2]
      exact .inr hpage.2
  · intro h
    cases h with
    | inl hroot =>
      rw [hroot]
      rfl
    | inr hpage => exact Option.isSome_iff_exists.2 ⟨key, cacheKey_eq_some.2 (.inr ⟨rfl, hpage⟩)⟩

/-- A path that has a key is not redirected. -/
theorem stays_of_cacheKey (h : (cacheKey path).isSome) : trailingSlashRedirect path = none := by
  unfold trailingSlashRedirect
  rw [if_pos]
  rw [or_iff_not_imp_left]
  intro hlong hlast
  have hsuffix : [slash] <:+ path := by
    obtain ⟨hne, hend⟩ := List.getLast?_eq_some_iff.1 hlast
    exact ⟨hne, hend.symm⟩
  have hroot : path ≠ [slash] := by
    rintro rfl
    exact hlong (by decide)
  rw [cacheKey, if_neg hroot, if_pos (.inr (.inl hsuffix))] at h
  cases h

theorem canonical_literal (hparams : hasParams pattern = false) : (cacheKey pattern).isSome ↔ CanonicalPattern pattern := by
  have hnames := List.any_eq_false.1 hparams
  constructor
  · intro h
    obtain ⟨key, hkey⟩ := Option.isSome_iff_exists.1 h
    exact (cacheKey_eq_some.1 hkey).imp And.left fun hpage => ⟨key, hpage.1, fun seg hseg => .inr (hpage.2 seg hseg)⟩
  · rintro (rfl | ⟨rest, rfl, hsegs⟩)
    · rfl
    · refine cacheKey_slash.2 (.inr fun seg hseg => (hsegs seg hseg).resolve_left ?_)
      refine hnames seg ?_
      rw [elements_slash]
      exact List.mem_cons_of_mem _ hseg

theorem canonical_expands (h : Expands params segs out) (hproper : ∀ seg ∈ segs, Proper seg) :
    (∀ v ∈ out, validParamValue v) ↔ ∀ seg ∈ segs, (paramName seg).isSome ∨ validParamValue seg := by
  induction h with
  | nil => simp
  | @cons seg v segs out hv _ ih =>
    obtain ⟨hseg, hsegs⟩ := List.forall_mem_cons.1 hproper
    rw [List.forall_mem_cons, List.forall_mem_cons, ih hsegs]
    refine and_congr_left fun _ => ?_
    rcases expandSeg_eq_some hseg hv with ⟨name, hname, _, hvalid⟩ | ⟨hname, rfl⟩
    · simp [hname, hvalid]
    · simp [hname]

theorem canonical_location (hvalid : validPattern pattern) (hparams : hasParams pattern)
    (hloc : expandPath pattern params = some loc) : (cacheKey loc).isSome ↔ CanonicalPattern pattern := by
  have hproper := proper_of_validPattern hvalid
  have hexpands := expands_elements hproper hloc
  have hroot : pattern ≠ [slash] := by
    rintro rfl
    exact absurd hparams (by decide)
  rw [validPattern, decide_eq_false hroot, Bool.false_or, Bool.and_eq_true] at hvalid
  obtain ⟨rest, hrest⟩ := of_decide_eq_true hvalid.1
  rw [List.singleton_append] at hrest
  subst hrest
  rw [elements_slash] at hexpands hproper
  obtain ⟨v, vs, hv, hvs, hout⟩ := List.forall₂_cons_left_iff.1 hexpands
  cases hv
  have hproper' := (List.forall_mem_cons.1 hproper).2
  have hparts : ∀ x ∈ elements loc, slash ∉ x := slash_notMem_elements
  rw [hout] at hparts
  have hne : vs ≠ [] := by
    rintro rfl
    exact elements_ne_nil (List.forall₂_nil_right_iff.1 hvs)
  have hkey : elements (join vs) = vs := elements_join (List.forall_mem_cons.1 hparts).2 hne
  -- the location is a slash with the other segments after it
  have hslash : loc = slash :: join vs := elements_inj (by rw [hout, elements_slash, hkey])
  have hlong : join vs ≠ [] := by
    intro hnil
    rw [hnil] at hkey
    rw [← hkey] at hvs
    obtain ⟨seg, segs, hseg, hsegs, hrest⟩ := List.forall₂_cons_right_iff.1 hvs
    cases List.forall₂_nil_right_iff.1 hsegs
    rw [hrest] at hproper'
    rcases expandSeg_eq_some (List.forall_mem_singleton.1 hproper') hseg with ⟨_, _, _, hvalue⟩ | ⟨_, rfl⟩
    · exact validParamValue_ne_nil hvalue rfl
    · exact hroot (congrArg (List.cons slash) (elements_inj hrest))
  rw [hslash, cacheKey_slash, hkey, or_iff_right hlong, canonical_expands hvs hproper']
  constructor
  · exact fun h => .inr ⟨rest, rfl, h⟩
  · rintro (h | ⟨rest', hrest', h⟩)
    · exact absurd h hroot
    · rwa [(List.cons.inj hrest').2]

end canonical

/-! ## Where all that is listed is served -/

section servable

variable {Props : Type} {opts : SitemapOptions} {reg : Registry Props} {routes : List RouteSpec} {ls : List Listed}

theorem routeEntries_ok {rt : RouteSpec} {added : List Listed} {l : Listed} (h : opts.routeEntries reg rt = .ok added)
    (hl : l ∈ added) : l.route = rt ∧ rt.render = .static ∧
      (hasParams rt.path = false ∧ l.location = rt.path ∨
        hasParams rt.path ∧ rt.path ∈ reg.paths ∧ expandPath rt.path l.params = some l.location) := by
  unfold SitemapOptions.routeEntries at h
  split at h
  · cases h
    cases hl
  rename_i hstatic
  rw [not_not] at hstatic
  split at h
  · rename_i hparams
    cases h
    split at hl
    · cases List.mem_singleton.1 hl
      exact ⟨rfl, hstatic, .inl ⟨by simpa using hparams, rfl⟩⟩
    · cases hl
  rename_i hparams
  split at h
  · cases h
  · cases h
  · rename_i instances hpaths
    cases h
    obtain ⟨params, -, hadded⟩ := List.mem_filterMap.1 hl
    split at hadded
    · cases hadded
    · rename_i loc hloc
      split at hadded
      · cases hadded
        exact ⟨rfl, hstatic, .inr ⟨by simpa using hparams, AList.lookup_isSome.1 (by rw [hpaths]; rfl), hloc⟩⟩
      · cases hadded

theorem listed_ok {l : Listed} (h : opts.listed reg routes = .ok ls) (hl : l ∈ ls) : l.route ∈ staticRoutes routes ∧
    (hasParams l.route.path = false ∧ l.location = l.route.path ∨
      hasParams l.route.path ∧ l.route.path ∈ reg.paths ∧ expandPath l.route.path l.params = some l.location) := by
  unfold SitemapOptions.listed at h
  cases hroutes : routes.mapM (opts.routeEntries reg) with
  | error e =>
    rw [hroutes] at h
    cases h
  | ok lists =>
    rw [hroutes] at h
    cases h
    obtain ⟨added, hadded, hl⟩ := List.mem_flatten.1 hl
    obtain ⟨rt, hrt, hok⟩ := Checks.mapM_mem hroutes hadded
    obtain ⟨rfl, hstatic, hmade⟩ := routeEntries_ok hok hl
    exact ⟨List.mem_filter.2 ⟨hrt, decide_eq_true hstatic⟩, hmade⟩

/-- A location that is listed has a key exactly where its pattern is canonical. -/
theorem listed_canonical (hreg : reg.Registered) (hlisted : opts.listed reg routes = .ok ls) {l : Listed} (hl : l ∈ ls) :
    (cacheKey l.location).isSome ↔ CanonicalPattern l.route.path := by
  rcases (listed_ok hlisted hl).2 with ⟨hparams, hloc⟩ | ⟨hparams, hpattern, hloc⟩
  · rw [hloc]
    exact canonical_literal hparams
  · exact canonical_location (hreg _ hpattern) hparams hloc

theorem listed_selects (hreg : reg.Registered) (hlisted : opts.listed reg routes = .ok ls) {l : Listed} (hl : l ∈ ls) :
    ∃ rt params, Selects (staticRoutes routes) l.location rt params := by
  obtain ⟨hstatic, ⟨_, hloc⟩ | ⟨_, hpattern, hloc⟩⟩ := listed_ok hlisted hl
  · rw [hloc]
    exact exists_selects_path hstatic
  · exact exists_selects_location hreg hstatic hpattern hloc

theorem once_entries {baseURL : GoString} {entries : List SitemapEntry} (hlisted : opts.listed reg routes = .ok ls)
    (hentries : opts.sitemapEntries reg baseURL routes = .ok entries) :
    (entries.map SitemapEntry.loc).Nodup ↔ (ls.map Listed.location).Nodup := by
  rw [SitemapOptions.sitemapEntries, hlisted] at hentries
  cases hentries
  have hlocs : (ls.map (opts.add (trimSuffix baseURL [slash]))).map SitemapEntry.loc =
      (ls.map Listed.location).map (trimSuffix baseURL [slash] ++ ·) := by
    simp only [List.map_map]
    rfl
  rw [((List.mergeSort_perm _ _).map _).nodup_iff, hlocs, List.nodup_map_iff (List.append_right_injective _)]

/-- All that the sitemap lists is served by the routes that it is listed for exactly where the locations are
distinct, their patterns canonical, and no other route takes them. -/
theorem sitemap_servable_iff (opts : SitemapOptions) (reg : Registry Props) (hreg : reg.Registered) (routes : List RouteSpec)
    (baseURL : GoString) (ls : List Listed) (entries : List SitemapEntry) (hlisted : opts.listed reg routes = .ok ls)
    (hentries : opts.sitemapEntries reg baseURL routes = .ok entries) : Servable routes ls entries ↔ Advertisable routes ls := by
  constructor
  · intro h
    refine ⟨(once_entries hlisted hentries).1 h.once, fun l hl => (listed_canonical hreg hlisted hl).1 (h.cached l hl), ?_⟩
    intro l hl rt params hselects
    obtain ⟨params', hmatch⟩ := h.matched l hl
    cases (matchStatic_eq_some.2 hselects).symm.trans hmatch
    rfl
  · intro h
    have hcached : ∀ l ∈ ls, (cacheKey l.location).isSome := fun l hl => (listed_canonical hreg hlisted hl).2 (h.canonical l hl)
    refine ⟨(once_entries hlisted hentries).2 h.distinct, fun l hl => stays_of_cacheKey (hcached l hl), fun l hl => ?_, hcached⟩
    obtain ⟨rt, params, hselects⟩ := listed_selects hreg hlisted hl
    have hown := h.own l hl rt params hselects
    subst hown
    exact ⟨params, matchStatic_eq_some.2 hselects⟩

end servable

/-! ### Sites -/

/-- All entries, without times. -/
def everything : SitemapOptions := ⟨none, none⟩

/-- The locations of the root and of a post. -/
def rootAndPost : List Listed :=
  [⟨staticPage "/", lit "/", ∅⟩, ⟨staticPage "/blog/:slug", lit "/blog/x", Finmap.singleton (lit "slug") (lit "x")⟩]

theorem rootAndPost_advertisable : Advertisable [staticPage "/", staticPage "/blog/:slug"] rootAndPost := by
  have hroot : matchStatic (staticRoutes [staticPage "/", staticPage "/blog/:slug"]) (lit "/") = some (staticPage "/", ∅) := by decide
  have hpost : matchStatic (staticRoutes [staticPage "/", staticPage "/blog/:slug"]) (lit "/blog/x") =
      some (staticPage "/blog/:slug", Finmap.singleton (lit "slug") (lit "x")) := by decide
  refine ⟨by decide, List.forall_mem_cons.2 ⟨.inl rfl, List.forall_mem_singleton.2 (.inr ⟨lit "blog/:slug", rfl, ?_⟩)⟩,
    List.forall_mem_cons.2 ⟨fun rt params h => ?_, List.forall_mem_singleton.2 fun rt params h => ?_⟩⟩
  · decide
  · cases hroot.symm.trans (matchStatic_eq_some.2 h)
    rfl
  · cases hpost.symm.trans (matchStatic_eq_some.2 h)
    rfl

theorem rootAndPost_servable : ∃ entries,
    everything.sitemapEntries posts (lit "https://example.com/") [staticPage "/", staticPage "/blog/:slug"] = .ok entries ∧
      Servable [staticPage "/", staticPage "/blog/:slug"] rootAndPost entries :=
  ⟨_, rfl, (sitemap_servable_iff everything posts posts_registered _ (lit "https://example.com/") rootAndPost _ rfl rfl).2
    rootAndPost_advertisable⟩

/-- A route with a slash at its end is listed, and redirected to a path that is no route. -/
theorem slashed_route_redirected : ¬ ∀ (Props : Type) (reg : Registry Props) (routes : List RouteSpec),
    reg.Registered → (∀ rt ∈ routes, validateRouteSpec rt = .ok ()) → reg.reconcile routes = [] →
    ∀ opts baseURL ls entries, SitemapOptions.listed opts reg routes = .ok ls →
      SitemapOptions.sitemapEntries opts reg baseURL routes = .ok entries → Servable routes ls entries := by
  intro h
  have hreconcile : (⟨∅, ∅, ∅⟩ : Registry Unit).reconcile [staticPage "/blog/"] = [] := by
    have hstatic : hasParams (lit "/blog/") = false := by decide
    simp [Registry.reconcile, Registry.registered, Registry.allDependents, staticPage, hstatic]
  have hservable := h Unit ⟨∅, ∅, ∅⟩ [staticPage "/blog/"] (fun pattern hpattern => (by cases hpattern))
    (List.forall_mem_singleton.2 rfl) hreconcile
    everything (lit "https://example.com") [⟨staticPage "/blog/", lit "/blog/", ∅⟩] _ rfl rfl
  have hstays := hservable.stays _ List.mem_cons_self
  have hredirect : trailingSlashRedirect (lit "/blog/") = some (lit "/blog") := by decide
  cases hstays.symm.trans hredirect

end Ploykit.Renderx

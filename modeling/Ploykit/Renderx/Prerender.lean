import Ploykit.Renderx.Selection
import Ploykit.Renderx.Serving

/-!
# Prerendering

`Prerender` of `platform/renderx/prerender.go` with `collectPrerenderTasks` and
`renderPrerenderTask`, over any outcome of `RenderOnce`. The tasks write their files at the
same time: the last of those that write one file is any of them.
-/

namespace Ploykit.Renderx

open Lib GoString
open Pages (EmbedTombstone)

structure Build (V : Type) where
  routes : List RouteSpec
  warm : List Path
  registry : Registry V
  /-- The JSON of what a loader returns, as `normalizeProps` leaves it. -/
  marshal : V → Option GoString

structure PrerenderTask where
  route : RouteSpec
  params : Params

/-- `RenderOnce`, of a page, a location, properties, and whether it is not to be hydrated. -/
abbrev RenderOnce := String → Path → GoString → Bool → Option GoString

inductive PrerenderErr where
  | missingPaths (pattern : Path)
  | paths (pattern : Path) (e : LoadErr)
  | invalidParam (pattern : Path)
  | expand (pattern : Path)
  | load (e : LoadErr)
  | marshal (pattern : Path)
  | render (location : Path)
  | invalidCacheKey (location : Path)

/-- A page that has been rendered, and the file that it is written to. -/
structure PrerenderPage where
  location : Path
  file : GoString
  html : GoString

/-- The files below a directory. -/
abbrev Files := GoString → Option GoString

namespace Build

variable {V : Type} (b : Build V)

def propsForRoute (pattern : Path) (params : Params) : Except PrerenderErr GoString :=
  match b.registry.loaders.lookup pattern with
  | none => .ok (lit "\x7b\x7d")
  | some fn =>
    match fn params with
    | .error e => .error (.load e)
    | .ok v =>
      match b.marshal v with
      | none => .error (.marshal pattern)
      | some props => .ok props

/-- The tasks of one route. -/
def routeTasks (rt : RouteSpec) : Except PrerenderErr (List PrerenderTask) :=
  if rt.render ≠ .static then .ok []
  else if (b.registry.loaders.lookup rt.path).isSome ∧ rt.path ∉ b.warm then .ok []
  else if !hasParams rt.path then .ok [⟨rt, ∅⟩]
  else
    match b.registry.paths.lookup rt.path with
    | none => .error (.missingPaths rt.path)
    | some (.error e) => .error (.paths rt.path e)
    | some (.ok instances) =>
      if instances.all validateParams then .ok (instances.map fun params => ⟨rt, params⟩) else .error (.invalidParam rt.path)

def collectPrerenderTasks : Except PrerenderErr (List PrerenderTask) := List.flatten <$> b.routes.mapM b.routeTasks

/-- The document of a route and parameters at a location. -/
def document (render : RenderOnce) (rt : RouteSpec) (params : Params) (location : Path) : Except PrerenderErr GoString :=
  match b.propsForRoute rt.path params with
  | .error e => .error e
  | .ok props =>
    match render rt.pageID location props (rt.hydrate = .none) with
    | none => .error (.render location)
    | some html => .ok html

def renderPrerenderTask (render : RenderOnce) (t : PrerenderTask) : Except PrerenderErr PrerenderPage :=
  match expandPath t.route.path t.params with
  | none => .error (.expand t.route.path)
  | some location =>
    match b.document render t.route t.params location with
    | .error e => .error e
    | .ok html =>
      match pageFilePath location with
      | none => .error (.invalidCacheKey location)
      | some file => .ok ⟨location, file, html⟩

def prerender (render : RenderOnce) : Except PrerenderErr (List PrerenderPage) :=
  match b.collectPrerenderTasks with
  | .error e => .error e
  | .ok tasks => tasks.mapM (b.renderPrerenderTask render)

end Build

def writePrerenderFile (fs : Files) (page : PrerenderPage) : Files := Function.update fs page.file (some page.html)

/-- The files of an emptied directory that the pages are written to. -/
def writeFiles (pages : List PrerenderPage) : Files := pages.foldl writePrerenderFile fun _ => none

/-- The build has succeeded, and has left the files. -/
def Build.Snapshot {V : Type} (b : Build V) (render : RenderOnce) (pages : List PrerenderPage) (fs : Files) : Prop :=
  b.prerender render = .ok pages ∧ ∃ order, order.Perm pages ∧ fs = writeFiles order

/-- `embedPage` over these files. -/
def embedPage (dead : EmbedTombstone) (fs : Files) (path : Path) : Option GoString :=
  if dead.has path then none else (pageFilePath path).bind fs

theorem embedPage_alive (fs : Files) (path : Path) : embedPage {} fs path = (pageFilePath path).bind fs := rfl

/-! ## Agreement -/

variable {V : Type} {b : Build V}

/-- The embedded pages are those of the routes that their paths select, no two paths have one file, and no
location is written twice. -/
structure Build.Agrees (b : Build V) (render : RenderOnce) (pages : List PrerenderPage) (fs : Files) : Prop where
  served : ∀ dead path html, embedPage dead fs path = some html →
    ∃ rt params, matchStatic (staticRoutes b.routes) path = some (rt, params) ∧ b.document render rt params path = .ok html
  apart : ∀ path path' file, path ≠ path' → pageFilePath path = some file → pageFilePath path' = some file → fs file = none
  once : (pages.map PrerenderPage.location).Nodup

def rootPath : Path := [slash]

def indexPath : Path := lit "/index"

/-- The locations are distinct and have files of their own, and no other route takes one of them for another document. -/
structure Unambiguous (b : Build V) (tasks : List PrerenderTask) : Prop where
  distinct : (tasks.map fun t => expandPath t.route.path t.params).Nodup
  noIndex : ∀ t ∈ tasks, ∀ loc, expandPath t.route.path t.params = some loc → loc ≠ rootPath ∧ loc ≠ indexPath
  selected : ∀ t ∈ tasks, ∀ loc, expandPath t.route.path t.params = some loc →
    ∀ rt params, Selects (staticRoutes b.routes) loc rt params →
      rt.pageID = t.route.pageID ∧ (rt.hydrate = .none ↔ t.route.hydrate = .none) ∧
        b.propsForRoute rt.path params = b.propsForRoute t.route.path t.params

/-! ## Files -/

section files

variable {path path' file : GoString} {pages : List PrerenderPage} {html : GoString}

theorem pageFilePath_eq_some (h : pageFilePath path = some file) :
    path = rootPath ∧ file = indexKey ∨ ∃ key, path = slash :: key ∧ cacheKey path = some key ∧ file = key ++ lit ".html" := by
  obtain ⟨key, hkey, hfile⟩ := Option.map_eq_some_iff.1 h
  cases cacheKey_eq_some.1 hkey with
  | inl hroot =>
    rw [if_pos hroot.2, hroot.2] at hfile
    exact .inl ⟨hroot.1, hfile.symm⟩
  | inr hpage =>
    have hpath := keyToPath_cacheKey hkey
    rw [hpage.1, keyToPath] at hpath
    split at hpath
    · rename_i hindex
      rw [hindex] at hkey hpage
      have hseg := hpage.2 indexKey (by rw [indexKey_elements]; exact List.mem_cons_self)
      exact absurd hseg (by decide)
    · rename_i hindex
      rw [if_neg hindex] at hfile
      exact .inr ⟨key, hpage.1, hkey, hfile.symm⟩

/-- Only the root and `/index` have one file. -/
theorem pageFilePath_inj (h : pageFilePath path = some file) (h' : pageFilePath path' = some file) :
    path = path' ∨ (path = rootPath ∨ path = indexPath) ∧ (path' = rootPath ∨ path' = indexPath) := by
  have hindex : ∀ key : GoString, indexKey = key ++ lit ".html" → slash :: key = indexPath := fun key hkey =>
    congrArg (List.cons slash) (List.append_cancel_right (hkey.symm.trans (show indexKey = lit "index" ++ lit ".html" from rfl)))
  rcases pageFilePath_eq_some h with ⟨hroot, hfile⟩ | ⟨key, hpath, hkey, hfile⟩ <;>
    rcases pageFilePath_eq_some h' with ⟨hroot', hfile'⟩ | ⟨key', hpath', hkey', hfile'⟩
  · exact .inl (hroot.trans hroot'.symm)
  · exact .inr ⟨.inl hroot, .inr (hpath'.trans (hindex key' (hfile.symm.trans hfile')))⟩
  · exact .inr ⟨.inr (hpath.trans (hindex key (hfile'.symm.trans hfile))), .inl hroot'⟩
  · have hkeys : key = key' := List.append_cancel_right (hfile.symm.trans hfile')
    exact .inl (hpath.trans (hkeys ▸ hpath'.symm))

theorem pageFilePath_root : pageFilePath rootPath = some indexKey := by decide

theorem pageFilePath_index : pageFilePath indexPath = some indexKey := by decide

theorem foldl_write_eq_some {fs : Files} (h : pages.foldl writePrerenderFile fs file = some html) :
    (∃ page ∈ pages, page.file = file ∧ page.html = html) ∨ fs file = some html := by
  induction pages generalizing fs with
  | nil => exact .inr h
  | cons page pages ih =>
    rcases ih h with ⟨other, hmem, hother⟩ | hhere
    · exact .inl ⟨other, List.mem_cons_of_mem page hmem, hother⟩
    · rw [writePrerenderFile] at hhere
      rcases eq_or_ne file page.file with rfl | hne
      · rw [Function.update_self] at hhere
        exact .inl ⟨page, List.mem_cons_self, rfl, Option.some.inj hhere⟩
      · rw [Function.update_of_ne hne] at hhere
        exact .inr hhere

theorem foldl_write_mem {page : PrerenderPage} {fs : Files}
    (honly : ∀ other ∈ pages, other.file = page.file → other.html = page.html)
    (h : page ∈ pages ∨ fs page.file = some page.html) : pages.foldl writePrerenderFile fs page.file = some page.html := by
  induction pages generalizing fs with
  | nil => exact h.resolve_left List.not_mem_nil
  | cons first pages ih =>
    obtain ⟨hfirst, hrest⟩ := List.forall_mem_cons.1 honly
    refine ih hrest ?_
    rw [writePrerenderFile]
    rcases eq_or_ne page.file first.file with heq | hne
    · rw [heq, Function.update_self, hfirst heq.symm]
      exact .inr rfl
    · rw [Function.update_of_ne hne]
      refine h.imp_left fun hmem => (List.mem_cons.1 hmem).resolve_left ?_
      rintro rfl
      exact hne rfl

/-- What is in a file was written by a page. -/
theorem writeFiles_eq_some (h : writeFiles pages file = some html) : ∃ page ∈ pages, page.file = file ∧ page.html = html :=
  (foldl_write_eq_some h).resolve_right fun h => (nomatch h)

/-- The only page that writes a file is in it. -/
theorem writeFiles_mem {page : PrerenderPage} (hmem : page ∈ pages)
    (honly : ∀ other ∈ pages, other.file = page.file → other.html = page.html) :
    writeFiles pages page.file = some page.html := foldl_write_mem honly (.inl hmem)

end files

/-! ## Tasks -/

section tasks

variable {render : RenderOnce} {tasks : List PrerenderTask} {t : PrerenderTask} {page : PrerenderPage} {loc : Path}

theorem renderPrerenderTask_ok : b.renderPrerenderTask render t = .ok page ↔
    expandPath t.route.path t.params = some page.location ∧
      b.document render t.route t.params page.location = .ok page.html ∧ pageFilePath page.location = some page.file := by
  unfold Build.renderPrerenderTask
  cases hexpand : expandPath t.route.path t.params with
  | none => simp
  | some location =>
    dsimp only
    cases hdoc : b.document render t.route t.params location with
    | error e =>
      simp only [reduceCtorEq, false_iff]
      rintro ⟨hloc, hok, -⟩
      cases hloc
      rw [hdoc] at hok
      cases hok
    | ok html =>
      dsimp only
      cases hfile : pageFilePath location with
      | none =>
        simp only [reduceCtorEq, false_iff]
        rintro ⟨hloc, -, hok⟩
        cases hloc
        rw [hfile] at hok
        cases hok
      | some file =>
        simp only [Except.ok.injEq]
        constructor
        · rintro rfl
          exact ⟨rfl, hdoc, hfile⟩
        · rintro ⟨hloc, hok, hok'⟩
          cases hloc
          rw [hdoc] at hok
          rw [hfile] at hok'
          cases hok
          cases hok'
          rfl

/-- The tasks of a route. -/
theorem routeTasks_ok {rt : RouteSpec} {ts : List PrerenderTask} (h : b.routeTasks rt = .ok ts) (ht : t ∈ ts) :
    t.route = rt ∧ rt.render = .static ∧ (t.params = ∅ ∨ rt.path ∈ b.registry.paths) := by
  unfold Build.routeTasks at h
  split at h
  · cases h
    cases ht
  rename_i hstatic
  rw [not_not] at hstatic
  split at h
  · cases h
    cases ht
  split at h
  · cases h
    cases List.mem_singleton.1 ht
    exact ⟨rfl, hstatic, .inl rfl⟩
  split at h
  · cases h
  · cases h
  · rename_i instances hpaths
    split at h
    · cases h
      obtain ⟨params, -, rfl⟩ := List.mem_map.1 ht
      exact ⟨rfl, hstatic, .inr (AList.lookup_isSome.1 (by rw [hpaths]; rfl))⟩
    · cases h

theorem collect_ok (h : b.collectPrerenderTasks = .ok tasks) (ht : t ∈ tasks) :
    t.route ∈ staticRoutes b.routes ∧ (t.params = ∅ ∨ t.route.path ∈ b.registry.paths) := by
  unfold Build.collectPrerenderTasks at h
  cases hroutes : b.routes.mapM b.routeTasks with
  | error e =>
    rw [hroutes] at h
    cases h
  | ok lists =>
    rw [hroutes] at h
    cases h
    obtain ⟨ts, hts, ht⟩ := List.mem_flatten.1 ht
    obtain ⟨rt, hrt, hok⟩ := Checks.mapM_mem hroutes hts
    obtain ⟨rfl, hstatic, hparams⟩ := routeTasks_ok hok ht
    exact ⟨List.mem_filter.2 ⟨hrt, decide_eq_true hstatic⟩, hparams⟩

theorem prerender_ok {pages : List PrerenderPage} (hcollect : b.collectPrerenderTasks = .ok tasks) :
    b.prerender render = .ok pages ↔ tasks.mapM (b.renderPrerenderTask render) = .ok pages := by
  rw [Build.prerender, hcollect]

/-- The location of a task selects some route. -/
theorem task_selects (hreg : b.registry.Registered) (hcollect : b.collectPrerenderTasks = .ok tasks) (ht : t ∈ tasks)
    (hloc : expandPath t.route.path t.params = some loc) :
    ∃ rt params, Selects (staticRoutes b.routes) loc rt params := by
  obtain ⟨hstatic, hparams⟩ := collect_ok hcollect ht
  cases hparams with
  | inl hempty =>
    rw [hempty] at hloc
    cases expandPath_empty hloc
    exact exists_selects_path hstatic
  | inr hpattern => exact exists_selects_location hreg hstatic hpattern hloc

theorem document_ok {rt : RouteSpec} {params : Params} {html : GoString} : b.document render rt params loc = .ok html ↔
    ∃ props, b.propsForRoute rt.path params = .ok props ∧ render rt.pageID loc props (rt.hydrate = .none) = some html := by
  unfold Build.document
  cases hprops : b.propsForRoute rt.path params with
  | error e => simp
  | ok props =>
    dsimp only
    cases hrender : render rt.pageID loc props (rt.hydrate = .none) with
    | none => simp [hrender]
    | some doc => simp [hrender]

/-! ## Where they agree -/

section agree

variable {pages : List PrerenderPage} {fs : Files}

theorem locations_eq (hpages : tasks.mapM (b.renderPrerenderTask render) = .ok pages) :
    tasks.map (fun t => expandPath t.route.path t.params) = (pages.map PrerenderPage.location).map some := by
  rw [List.map_map]
  exact Checks.mapM_map hpages fun t page h => (renderPrerenderTask_ok.1 h).1

theorem once_iff (hpages : tasks.mapM (b.renderPrerenderTask render) = .ok pages) :
    (pages.map PrerenderPage.location).Nodup ↔ (tasks.map fun t => expandPath t.route.path t.params).Nodup := by
  rw [locations_eq hpages, List.nodup_map_iff (Option.some_injective _)]

/-- The document of a task is that of every route that its location selects. -/
theorem Unambiguous.document (h : Unambiguous b tasks) {t : PrerenderTask} (ht : t ∈ tasks)
    (hloc : expandPath t.route.path t.params = some loc) {rt : RouteSpec} {params : Params}
    (hselects : Selects (staticRoutes b.routes) loc rt params) :
    b.document render rt params loc = b.document render t.route t.params loc := by
  obtain ⟨hpage, hhydrate, hprops⟩ := h.selected t ht loc hloc rt params hselects
  have hsame : decide (rt.hydrate = .none) = decide (t.route.hydrate = .none) := decide_eq_decide.2 hhydrate
  rw [Build.document, Build.document, hprops, hpage, hsame]

theorem agrees_of_unambiguous (hreg : b.registry.Registered) (hcollect : b.collectPrerenderTasks = .ok tasks)
    (h : Unambiguous b tasks) (hsnapshot : b.Snapshot render pages fs) : b.Agrees render pages fs := by
  obtain ⟨hpages, order, hperm, rfl⟩ := hsnapshot
  rw [prerender_ok hcollect] at hpages
  have hnotIndex : ∀ page ∈ pages, page.location ≠ rootPath ∧ page.location ≠ indexPath := by
    intro page hpage
    obtain ⟨t, ht, hok⟩ := Checks.mapM_mem hpages hpage
    exact h.noIndex t ht page.location (renderPrerenderTask_ok.1 hok).1
  refine ⟨fun dead path html hembed => ?_, fun path path' file hne hfile hfile' => ?_, (once_iff hpages).2 h.distinct⟩
  · unfold embedPage at hembed
    split at hembed
    · cases hembed
    obtain ⟨file, hfile, hhtml⟩ := Option.bind_eq_some_iff.1 hembed
    obtain ⟨page, hmem, rfl, rfl⟩ := writeFiles_eq_some hhtml
    have hpage := hperm.mem_iff.1 hmem
    obtain ⟨t, ht, hok⟩ := Checks.mapM_mem hpages hpage
    obtain ⟨hloc, hdoc, hpageFile⟩ := renderPrerenderTask_ok.1 hok
    have hpath : path = page.location := by
      rcases pageFilePath_inj hfile hpageFile with hsame | ⟨_, hindex⟩
      · exact hsame
      · exact absurd hindex (not_or.2 (hnotIndex page hpage))
    obtain ⟨rt, params, hselects⟩ := task_selects hreg hcollect ht hloc
    rw [hpath]
    exact ⟨rt, params, matchStatic_eq_some.2 hselects, (h.document ht hloc hselects).trans hdoc⟩
  · refine Option.eq_none_iff_forall_ne_some.2 fun html hhtml => ?_
    obtain ⟨page, hmem, rfl, -⟩ := writeFiles_eq_some hhtml
    have hpage := hperm.mem_iff.1 hmem
    obtain ⟨t, ht, hok⟩ := Checks.mapM_mem hpages hpage
    obtain ⟨_, _, hpageFile⟩ := renderPrerenderTask_ok.1 hok
    -- the location is one of the two paths, and the other has the file too
    rcases pageFilePath_inj hpageFile hfile with hsame | ⟨hindex, _⟩
    · rcases pageFilePath_inj hpageFile hfile' with hsame' | ⟨hindex, _⟩
      · exact hne (hsame.symm.trans hsame')
      · exact absurd hindex (not_or.2 (hnotIndex page hpage))
    · exact absurd hindex (not_or.2 (hnotIndex page hpage))

/-- Whatever is rendered, the build succeeds that has once succeeded. -/
theorem prerender_total (hcollect : b.collectPrerenderTasks = .ok tasks)
    (hok : ∃ render pages, b.prerender render = .ok pages) {render : RenderOnce}
    (htotal : ∀ pageID loc props bare, (render pageID loc props bare).isSome) :
    ∃ pages, tasks.mapM (b.renderPrerenderTask render) = .ok pages := by
  obtain ⟨render₀, pages₀, hpages₀⟩ := hok
  rw [prerender_ok hcollect] at hpages₀
  refine Checks.exists_mapM_ok.2 fun t ht => ?_
  obtain ⟨page₀, _, hpage₀⟩ := Checks.mapM_mem_of hpages₀ ht
  obtain ⟨hloc, hdoc, hfile⟩ := renderPrerenderTask_ok.1 hpage₀
  obtain ⟨props, hprops, _⟩ := document_ok.1 hdoc
  obtain ⟨html, hhtml⟩ := Option.isSome_iff_exists.1 (htotal t.route.pageID page₀.location props (t.route.hydrate = .none))
  exact ⟨⟨page₀.location, page₀.file, html⟩, renderPrerenderTask_ok.2 ⟨hloc, document_ok.2 ⟨props, hprops, hhtml⟩, hfile⟩⟩

theorem page_file (hpages : tasks.mapM (b.renderPrerenderTask render) = .ok pages) {page : PrerenderPage} (hmem : page ∈ pages) :
    pageFilePath page.location = some page.file := by
  obtain ⟨t, _, hok⟩ := Checks.mapM_mem hpages hmem
  exact (renderPrerenderTask_ok.1 hok).2.2

/-- A renderer that knows one document. -/
def tells (pageID : String) (loc : Path) (props : GoString) (bare : Bool) : RenderOnce := fun pageID' loc' props' bare' =>
  some (if pageID' = pageID ∧ loc' = loc ∧ props' = props ∧ bare' = bare then [1] else [])

/-- A renderer whose documents are all the same. -/
def blank : RenderOnce := fun _ _ _ _ => some []

theorem blank_html (hpages : tasks.mapM (b.renderPrerenderTask blank) = .ok pages) {page : PrerenderPage} (hmem : page ∈ pages) :
    page.html = [] := by
  obtain ⟨t, _, hok⟩ := Checks.mapM_mem hpages hmem
  obtain ⟨props, _, hhtml⟩ := document_ok.1 (renderPrerenderTask_ok.1 hok).2.1
  exact (Option.some.inj hhtml).symm

theorem noIndex_of_agrees (hpages : tasks.mapM (b.renderPrerenderTask blank) = .ok pages)
    (h : b.Agrees blank pages (writeFiles pages)) {t : PrerenderTask} (ht : t ∈ tasks)
    (hloc : expandPath t.route.path t.params = some loc) : loc ≠ rootPath ∧ loc ≠ indexPath := by
  obtain ⟨page, hmem, hok⟩ := Checks.mapM_mem_of hpages ht
  cases hloc.symm.trans (renderPrerenderTask_ok.1 hok).1
  -- otherwise the file of the root and of `/index` has been written
  have hempty := h.apart rootPath indexPath indexKey (by decide) pageFilePath_root pageFilePath_index
  have hnot : page.file ≠ indexKey := by
    intro hindex
    have hwritten := writeFiles_mem hmem fun other hother _ => (blank_html hpages hother).trans (blank_html hpages hmem).symm
    rw [hindex, hempty] at hwritten
    cases hwritten
  have hfile := page_file hpages hmem
  constructor
  · intro hroot
    rw [hroot, pageFilePath_root] at hfile
    exact hnot (Option.some.inj hfile).symm
  · intro hindex
    rw [hindex, pageFilePath_index] at hfile
    exact hnot (Option.some.inj hfile).symm

theorem unambiguous_of_agrees (hcollect : b.collectPrerenderTasks = .ok tasks)
    (hok : ∃ render pages, b.prerender render = .ok pages)
    (h : ∀ render pages fs, b.Snapshot render pages fs → b.Agrees render pages fs) : Unambiguous b tasks := by
  have hagrees : ∀ {render pages}, tasks.mapM (b.renderPrerenderTask render) = .ok pages →
      b.Agrees render pages (writeFiles pages) :=
    fun hpages => h _ _ _ ⟨(prerender_ok hcollect).2 hpages, _, .refl _, rfl⟩
  obtain ⟨pages, hpages⟩ : ∃ pages, tasks.mapM (b.renderPrerenderTask blank) = .ok pages :=
    prerender_total hcollect hok fun _ _ _ _ => rfl
  have hnoIndex : ∀ t ∈ tasks, ∀ loc, expandPath t.route.path t.params = some loc → loc ≠ rootPath ∧ loc ≠ indexPath :=
    fun t ht loc hloc => noIndex_of_agrees hpages (hagrees hpages) ht hloc
  refine ⟨(once_iff hpages).1 (hagrees hpages).once, hnoIndex, fun t ht loc hloc rt params hselects => ?_⟩
  obtain ⟨page, hmem, hpage⟩ := Checks.mapM_mem_of hpages ht
  obtain ⟨hloc', hdoc, _⟩ := renderPrerenderTask_ok.1 hpage
  cases hloc.symm.trans hloc'
  obtain ⟨props, hprops, _⟩ := document_ok.1 hdoc
  -- a renderer that tells the document of the task from all others
  obtain ⟨pages', hpages'⟩ : ∃ pages, tasks.mapM (b.renderPrerenderTask
      (tells t.route.pageID page.location props (t.route.hydrate = .none))) = .ok pages :=
    prerender_total hcollect hok fun _ _ _ _ => rfl
  obtain ⟨page', hmem', hpage'⟩ := Checks.mapM_mem_of hpages' ht
  obtain ⟨hloc', hdoc', hfile'⟩ := renderPrerenderTask_ok.1 hpage'
  have hsame : page'.location = page.location := Option.some.inj (hloc'.symm.trans hloc)
  have hhtml : page'.html = [1] := by
    obtain ⟨props', hprops', hhtml⟩ := document_ok.1 hdoc'
    cases hprops.symm.trans hprops'
    rw [tells, hsame, if_pos ⟨rfl, rfl, rfl, rfl⟩] at hhtml
    exact (Option.some.inj hhtml).symm
  have honly : ∀ other ∈ pages', other.file = page'.file → other.html = page'.html := by
    intro other hother hfile
    rcases pageFilePath_inj (page_file hpages' hother) (hfile ▸ hfile') with heq | ⟨_, hindex⟩
    · rw [List.inj_on_of_nodup_map (hagrees hpages').once hother hmem' heq]
    · exact absurd hindex (not_or.2 (hnoIndex t ht _ hloc'))
  have hembed : embedPage {} (writeFiles pages') page.location = some [1] := by
    rw [← hsame, embedPage_alive, hfile', Option.bind_some, writeFiles_mem hmem' honly, hhtml]
  obtain ⟨rt', params', hmatch, hdoc'⟩ := (hagrees hpages').served {} page.location [1] hembed
  cases (matchStatic_eq_some.2 hselects).symm.trans hmatch
  obtain ⟨props', hprops', hhtml'⟩ := document_ok.1 hdoc'
  have hshown : rt.pageID = t.route.pageID ∧ page.location = page.location ∧ props' = props ∧
      decide (rt.hydrate = .none) = decide (t.route.hydrate = .none) := by
    by_contra hno
    rw [tells, if_neg hno] at hhtml'
    cases hhtml'
  refine ⟨hshown.1, decide_eq_decide.1 hshown.2.2.2, ?_⟩
  rw [hprops', hprops, hshown.2.2.1]

/-- The embedded pages of every build that succeeds are those that their paths select exactly where the
locations are unambiguous. -/
theorem prerender_agrees_iff (b : Build V) (hreg : b.registry.Registered) (tasks : List PrerenderTask)
    (hcollect : b.collectPrerenderTasks = .ok tasks) (hok : ∃ render pages, b.prerender render = .ok pages) :
    (∀ render pages fs, b.Snapshot render pages fs → b.Agrees render pages fs) ↔ Unambiguous b tasks :=
  ⟨unambiguous_of_agrees hcollect hok, fun h _ _ _ hsnapshot => agrees_of_unambiguous hreg hcollect h hsnapshot⟩

end agree

end tasks

/-! ### Builds -/

/-- A build of these pages. -/
def buildOf (routes : List RouteSpec) : Build Unit := ⟨routes, [], posts, fun _ => none⟩

/-- A page for every slug, and one of them by its own route. -/
def blog : List RouteSpec := [staticPage "/blog/:slug", staticPage "/blog/new"]

def blogTasks : List PrerenderTask :=
  [⟨staticPage "/blog/:slug", Finmap.singleton (lit "slug") (lit "x")⟩, ⟨staticPage "/blog/new", ∅⟩]

theorem blogTasks_unambiguous : Unambiguous (buildOf blog) blogTasks := by
  have hslug : expandPath (lit "/blog/:slug") (Finmap.singleton (lit "slug") (lit "x")) = some (lit "/blog/x") := by
    decide
  have hnew : expandPath (lit "/blog/new") ∅ = some (lit "/blog/new") := by decide
  have hmatchSlug : matchStatic (staticRoutes blog) (lit "/blog/x") =
      some (staticPage "/blog/:slug", Finmap.singleton (lit "slug") (lit "x")) := by decide
  have hmatchNew : matchStatic (staticRoutes blog) (lit "/blog/new") = some (staticPage "/blog/new", ∅) := by decide
  refine ⟨by decide, List.forall_mem_cons.2 ⟨fun loc hloc => ?_, List.forall_mem_singleton.2 fun loc hloc => ?_⟩,
    List.forall_mem_cons.2 ⟨fun loc hloc rt params h => ?_, List.forall_mem_singleton.2 fun loc hloc rt params h => ?_⟩⟩
  · cases hslug.symm.trans hloc
    decide
  · cases hnew.symm.trans hloc
    decide
  · cases hslug.symm.trans hloc
    cases hmatchSlug.symm.trans (matchStatic_eq_some.2 h)
    exact ⟨rfl, .rfl, rfl⟩
  · cases hnew.symm.trans hloc
    cases hmatchNew.symm.trans (matchStatic_eq_some.2 h)
    exact ⟨rfl, .rfl, rfl⟩

theorem blog_agrees : (∃ pages, (buildOf blog).prerender blank = .ok pages ∧ pages.length = 2) ∧
    ∀ render pages fs, (buildOf blog).Snapshot render pages fs → (buildOf blog).Agrees render pages fs :=
  ⟨⟨_, rfl, rfl⟩,
    (prerender_agrees_iff (buildOf blog) posts_registered blogTasks rfl ⟨blank, _, rfl⟩).2 blogTasks_unambiguous⟩

/-- The embedded page of the root is served for "/index", which selects no route. -/
theorem root_served_at_index : ¬ ∀ (V : Type) (b : Build V), b.registry.Registered →
    ∀ render pages fs, b.Snapshot render pages fs → b.Agrees render pages fs := by
  intro h
  have hagrees := h Unit (buildOf [staticPage "/"]) posts_registered blank _ _ ⟨rfl, _, .refl _, rfl⟩
  obtain ⟨rt, params, hmatch, _⟩ := hagrees.served {} indexPath [] rfl
  have hnone : matchStatic (staticRoutes [staticPage "/"]) indexPath = none := by decide
  cases hnone.symm.trans hmatch

end Ploykit.Renderx

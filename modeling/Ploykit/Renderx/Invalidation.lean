import Ploykit.Renderx.Barrier

/-!
# Runs of requests and invalidations

A request only serves what it has read for its path. An invalidation that returns without an
error has cleared, and put a tombstone over, every path that it affects.
-/

namespace Ploykit.Renderx.Pages

open Lib GoString

/-! ## Tombstones over canonical paths -/

theorem hasParams_canonical {path : Path} (h : (cacheKey path).isSome) : hasParams path = false := by
  have hplain : ∀ seg ∈ elements path, colon ∉ seg := by
    obtain ⟨key, hkey⟩ := Option.isSome_iff_exists.1 h
    cases cacheKey_eq_some.1 hkey with
    | inl hroot =>
      rw [hroot.1]
      decide
    | inr hpage =>
      intro seg hseg hcolon
      rw [hpage.1, elements_cons, if_pos rfl] at hseg
      cases hseg with
      | head => cases hcolon
      | tail _ hseg => exact absurd (byte_of_validParamValue (hpage.2 seg hseg) hcolon) (by decide)
  refine List.any_eq_false.2 fun seg hseg hparam => ?_
  obtain ⟨name, hname⟩ := Option.isSome_iff_exists.1 hparam
  refine hplain seg hseg ?_
  rw [paramName_eq_some hname]
  exact List.mem_cons_self

theorem covers_canonical {path : Path} (h : (cacheKey path).isSome) : Known.covers path path := by
  simp [Known.covers, EmbedTombstone.add, EmbedTombstone.has, hasParams_canonical h]

theorem covers_match {pattern path : Path} (hparams : hasParams pattern) (h : (matchPath pattern path).isSome) :
    Known.covers pattern path := by
  simp [Known.covers, EmbedTombstone.add, EmbedTombstone.has, hparams, h]

/-! ## Requests -/

section requests

variable {B : Type} {site : Site B} {k : Known} {path : Path} {key : GoString} {rt : RouteSpec} {params : Params}

namespace Known

/-- What is read is a page of the path. -/
def Got (path : Path) (k : Known) (r : Option Entry) : Prop := k.path = path ∧ ∀ ent, r = some ent → ent.html.loaded ∈ k.got

theorem got_reads (h : k.path = path) (r : Option Entry) : (k.reads r).Got path r := by
  refine ⟨h, fun ent hent => ?_⟩
  rw [hent]
  exact List.mem_cons_self

end Known

open Known Serving

theorem get_follows (hpath : k.path = path) (hkey : cacheKey path = some key) :
    (Serving.get key).Follows (knowing site) (Got path) k := by
  subst hpath
  refine ⟨hkey, fun r => ?_⟩
  cases r with
  | some ent => exact got_reads rfl _
  | none =>
    refine ⟨hkey, fun r => ?_⟩
    cases r with
    | none => exact got_reads rfl none
    | some ent => exact ⟨hkey, fun _ => got_reads rfl _⟩

theorem put_follows (hpath : k.path = path) (hkey : cacheKey path = some key) (ent : Entry) :
    (Serving.put site key ent).Follows (knowing site) (fun k' _ => k' = k) k := by
  subst hpath
  refine ⟨trivial, fun now => ?_⟩
  simp only [Script.ret_bind]
  split
  · rfl
  · exact ⟨hkey, fun _ => ⟨hkey, fun _ => rfl⟩⟩

/-- The page of a result, if there is one. -/
def pageOf (r : Except LoadErr (Entry × Bool)) : Option Entry := r.toOption.map Prod.fst

theorem loadOrReplay_follows (hpath : k.path = path) (hkey : cacheKey path = some key) :
    (loadOrReplay site path key rt params).Follows (knowing site) (fun k r => k.Got path (pageOf r)) k := by
  refine Script.follows_bind ((get_follows hpath hkey).mono fun k r hgot => ?_)
  cases r with
  | some ent => exact hgot
  | none =>
    refine ⟨hgot.1.symm, fun r => ?_⟩
    have hread := got_reads hgot.1 r.toOption
    simp only [Script.ret_bind]
    cases r with
    | error e => exact hread
    | ok ent =>
      refine Script.follows_bind ((put_follows hread.1 hkey ent).mono fun k' _ hsame => ?_)
      cases hsame
      exact hread

theorem getOrLoadHit_follows (hpath : k.path = path) (hkey : cacheKey path = some key) :
    (getOrLoadHit site path key rt params).Follows (knowing site) (fun k r => k.Got path (pageOf r)) k := by
  refine Script.follows_bind ((get_follows hpath hkey).mono fun k r hgot => ?_)
  cases r with
  | some ent => exact hgot
  | none =>
    refine ⟨trivial, fun joined => ?_⟩
    simp only [Script.ret_bind]
    cases joined with
    | waits id => exact ⟨trivial, fun r => got_reads hgot.1 (pageOf r)⟩
    | leads id =>
      refine Script.follows_bind ((loadOrReplay_follows hgot.1 hkey).mono fun k r hread => ?_)
      exact ⟨trivial, fun _ => hread⟩

theorem serve_follows {r : Option Entry} {ent : Entry} (h : k.Got path r) (hent : r = some ent) :
    (Script.op (.serve path ent.html)).Follows (knowing site) (fun _ _ => True) k :=
  ⟨⟨h.1.symm, .inl (h.2 ent hent)⟩, fun _ => trivial⟩

theorem serveStale_follows (hpath : k.path = path) :
    (serveStale site path).Follows (knowing site) (fun _ _ => True) k := by
  subst hpath
  unfold serveStale
  cases hkey : cacheKey k.path with
  | none => trivial
  | some key =>
    refine ⟨hkey, fun r => ?_⟩
    have hmem := got_reads (rfl : k.path = k.path) r
    simp only [Script.ret_bind]
    cases hr : r.filter (·.buildID = site.buildID) with
    | some ent => exact serve_follows hmem (Option.filter_eq_some_iff.1 hr).1
    | none =>
      refine ⟨hkey, fun r' => ?_⟩
      have hdisk := got_reads hmem.1 r'
      simp only [Script.ret_bind]
      cases hr' : r'.filter (·.buildID = site.buildID) with
      | some ent => exact serve_follows hdisk (Option.filter_eq_some_iff.1 hr').1
      | none => trivial

theorem serveStatic_follows (hpath : k.path = path) :
    (serveStatic site path rt params).Follows (knowing site) (fun _ _ => True) k := by
  refine ⟨trivial, fun poisoned => ?_⟩
  simp only [Script.ret_bind]
  split
  · exact serveStale_follows hpath
  · cases hkey : cacheKey path with
    | none => exact serveStale_follows hpath
    | some key =>
      refine Script.follows_bind ((getOrLoadHit_follows hpath hkey).mono fun k r hread => ?_)
      cases r with
      | ok loaded => exact serve_follows hread rfl
      | error e =>
        cases e with
        | pageNotFound => trivial
        | renderTimeout => exact ⟨trivial, fun _ => serveStale_follows hread.1⟩
        | patternNotFound => exact serveStale_follows hread.1
        | other => exact serveStale_follows hread.1

/-- An embedded page is only served where no tombstone lies over the path. -/
theorem embedPage_follows (hpath : k.path = path) : (Serving.embedPage site path).Follows (knowing site)
    (fun k html => k.path = path ∧ (html.isSome → k.live ∧ (cacheKey path).isSome)) k := by
  unfold Serving.embedPage
  cases site.prerenderFS with
  | none => exact ⟨hpath, fun h => (nomatch h)⟩
  | some fs =>
    refine ⟨hpath.symm, fun dead => ?_⟩
    cases dead with
    | true => exact ⟨hpath, fun h => (nomatch h)⟩
    | false =>
      refine ⟨hpath, fun hfound => ⟨rfl, ?_⟩⟩
      cases hkey : cacheKey path with
      | some key => rfl
      | none =>
        rw [pageFilePath, hkey] at hfound
        cases hfound

theorem serveHTTP_accepted (path : Path) : (knowing site).Accepts (serveHTTP site path) := by
  intro k _
  refine ⟨trivial, fun _ => ?_⟩
  simp only [Script.ret_bind]
  split
  · trivial
  · refine Script.follows_bind ((embedPage_follows rfl).mono fun k html hhtml => ?_)
    cases html with
    | some html => exact ⟨⟨hhtml.1.symm, .inr (hhtml.2 rfl)⟩, fun _ => trivial⟩
    | none =>
      dsimp only
      split
      · exact serveStatic_follows hhtml.1
      · trivial

end requests

/-! ## Invalidations -/

section invalidations

variable {B : Type} {site : Site B} {k k' : Known} {path pattern : Path} {params : Params}

namespace Known

/-- Between the calls of one invalidation more is cleared, and nothing else changes. -/
structure Clears (k k' : Known) : Prop where
  affects : k'.affects = k.affects
  mem : ∀ path, k.mem path → k'.mem path
  disk : ∀ path, k.disk path → k'.disk path
  buried : ∀ path, k.buried path → k'.buried path
  listed : ∀ key, key ∈ k.listed → key ∈ k'.listed

/-- The path is in neither tier. -/
def Gone (k : Known) (path : Path) : Prop := k.mem path ∧ k.disk path

/-- The path is in neither tier, and its embedded page is dead. -/
def Cleaned (k : Known) (path : Path) : Prop := k.mem path ∧ k.disk path ∧ k.buried path

theorem Clears.refl (k : Known) : k.Clears k := ⟨rfl, fun _ h => h, fun _ h => h, fun _ h => h, fun _ h => h⟩

theorem Clears.trans {k'' : Known} (h : k.Clears k') (h' : k'.Clears k'') : k.Clears k'' where
  affects := h'.affects.trans h.affects
  mem path hm := h'.mem path (h.mem path hm)
  disk path hd := h'.disk path (h.disk path hd)
  buried path hb := h'.buried path (h.buried path hb)
  listed key hk := h'.listed key (h.listed key hk)

theorem Gone.mono (hgone : k.Gone path) (h : k.Clears k') : k'.Gone path := ⟨h.mem path hgone.1, h.disk path hgone.2⟩

theorem Cleaned.mono (hclean : k.Cleaned path) (h : k.Clears k') : k'.Cleaned path :=
  ⟨h.mem path hclean.1, h.disk path hclean.2.1, h.buried path hclean.2.2⟩

theorem clears_memDelete (k : Known) (key : GoString) :
    k.Clears { k with mem := fun path => k.mem path || World.hasKey key path } :=
  ⟨rfl, fun path h => by simp [h], fun _ h => h, fun _ h => h, fun _ h => h⟩

theorem clears_diskDelete (k : Known) (key : GoString) (ok : Bool) :
    k.Clears { k with disk := fun path => k.disk path || (ok && World.hasKey key path) } :=
  ⟨rfl, fun _ h => h, fun path h => by simp [h], fun _ h => h, fun _ h => h⟩

theorem clears_bury (k : Known) (p : Path) : k.Clears { k with buried := fun path => k.buried path || covers p path } :=
  ⟨rfl, fun _ h => h, fun _ h => h, fun path h => by simp [h], fun _ h => h⟩

theorem clears_memKeys (k : Known) (keys : List GoString) :
    k.Clears { k with mem := fun path => k.mem path || World.absent keys path, listed := keys ++ k.listed } :=
  ⟨rfl, fun path h => by simp [h], fun _ h => h, fun _ h => h, fun key h => List.mem_append_right keys h⟩

theorem clears_diskKeys (k : Known) (keys : List GoString) :
    k.Clears { k with disk := fun path => k.disk path || World.absent keys path, listed := keys ++ k.listed } :=
  ⟨rfl, fun _ h => h, fun path h => by simp [h], fun _ h => h, fun key h => List.mem_append_right keys h⟩

end Known

open Known Serving

/-- A key that is deleted from both tiers. -/
theorem delete_follows {key : GoString} (hkey : key ∈ k.listed ∨ ∃ path, cacheKey path = some key) {f : Bool → Serving.Proc Bool}
    {Q : Known → Bool → Prop}
    (h : ∀ k' (ok : Bool), k.Clears k' → (ok → ∀ path, cacheKey path = some key → k'.Gone path) → (f ok).Follows (knowing site) Q k') :
    (Script.op (.memDelete key) >>= fun _ => Script.op (.diskDelete key) >>= f).Follows (knowing site) Q k := by
  refine ⟨trivial, fun _ => ⟨hkey, fun ok => ?_⟩⟩
  refine h _ ok ((clears_memDelete k key).trans (clears_diskDelete _ key ok)) fun hok path hpath => ?_
  subst hok
  simp [Gone, knowing, Known.next, World.hasKey, hpath]

theorem deletePath_follows (path : Path) : (deletePath path).Follows (knowing site)
    (fun k' (ok : Bool) => k.Clears k' ∧ (ok → k'.Gone path)) k := by
  unfold deletePath
  cases hkey : cacheKey path with
  | none => exact ⟨.refl k, fun h => (nomatch h)⟩
  | some key =>
    exact delete_follows (f := pure) (.inr ⟨path, hkey⟩) fun k' ok hclears hgone => ⟨hclears, fun hok => hgone hok path hkey⟩

/-- The keys that match are deleted, where the store does not fail. -/
theorem evict_follows {keys : List GoString} (hkeys : ∀ key ∈ keys, key ∈ k.listed) :
    (Serving.evict pattern keys).Follows (knowing site) (fun k' (ok : Bool) => k.Clears k' ∧
      (ok → ∀ key ∈ keys, ∀ path, cacheKey path = some key → (matchPath pattern path).isSome → k'.Gone path)) k := by
  induction keys generalizing k with
  | nil => exact ⟨.refl k, fun _ key hkey => (nomatch hkey)⟩
  | cons key keys ih =>
    unfold Serving.evict
    split
    · refine delete_follows (.inl (hkeys key List.mem_cons_self)) fun k₁ ok hclears hgone => ?_
      have hrest := ih (k := k₁) fun key' hkey' => hclears.listed key' (hkeys key' (List.mem_cons_of_mem _ hkey'))
      refine Script.follows_bind (hrest.mono fun k₂ rest hk₂ => ?_)
      refine ⟨hclears.trans hk₂.1, fun hok key' hkey' path hpath hmatch => ?_⟩
      simp only [Bool.and_eq_true] at hok
      cases hkey' with
      | head => exact (hgone hok.1 path hpath).mono hk₂.1
      | tail _ hkey' => exact hk₂.2 hok.2 key' hkey' path hpath hmatch
    · rename_i hother
      refine (ih fun key' hkey' => hkeys key' (List.mem_cons_of_mem _ hkey')).mono fun k' ok hk' => ⟨hk'.1, ?_⟩
      intro hok key' hkey' path hpath hmatch
      cases hkey' with
      | head => exact absurd (keyToPath_cacheKey hpath ▸ hmatch) hother
      | tail _ hkey' => exact hk'.2 hok key' hkey' path hpath hmatch

/-- A key that neither listing has is in neither tier already. -/
theorem evictMatching_follows (pattern : Path) : (evictMatching pattern).Follows (knowing site)
    (fun k' (ok : Bool) => k.Clears k' ∧
      (ok → ∀ path, (cacheKey path).isSome → (matchPath pattern path).isSome → k'.Gone path)) k := by
  refine ⟨trivial, fun mem => ⟨trivial, fun disk => ?_⟩⟩
  have hclears := (clears_memKeys k mem).trans (clears_diskKeys _ disk)
  have hmem : ∀ {key}, key ∈ (mem ++ disk).dedup.mergeSort (fun a b => a ≤ b) ↔ key ∈ mem ∨ key ∈ disk := by simp
  refine Script.Follows.mono (evict_follows fun key hkey => ?_) fun k' ok hk' => ⟨hclears.trans hk'.1, ?_⟩
  · cases hmem.1 hkey with
    | inl h => exact List.mem_append_right _ (List.mem_append_left _ h)
    | inr h => exact List.mem_append_left _ h
  · intro hok path hpath hmatch
    obtain ⟨key, hkey⟩ := Option.isSome_iff_exists.1 hpath
    have habsent : ∀ keys : List GoString, key ∉ keys → World.absent keys path := fun keys h => by
      simp [World.absent, hkey, h]
    by_cases hlisted : key ∈ mem ∨ key ∈ disk
    · exact hk'.2 hok key (hmem.2 hlisted) path hkey hmatch
    · rw [not_or] at hlisted
      refine Gone.mono ⟨?_, ?_⟩ hk'.1
      · simp [knowing, Known.next, habsent mem hlisted.1]
      · simp [knowing, Known.next, habsent disk hlisted.2]

/-- One path is deleted after its embedded page. -/
theorem buryPath_follows (path : Path) : (Script.op (.bury path) >>= fun _ => deletePath path).Follows (knowing site)
    (fun k' (ok : Bool) => k.Clears k' ∧ (ok → (cacheKey path).isSome → k'.Cleaned path)) k := by
  refine ⟨trivial, fun _ => (deletePath_follows path).mono fun k' ok hk' => ?_⟩
  refine ⟨(clears_bury k path).trans hk'.1, fun hok hpath => ⟨(hk'.2 hok).1, (hk'.2 hok).2, hk'.1.buried path ?_⟩⟩
  simp [knowing, Known.next, covers_canonical hpath]

theorem invalidatePattern_follows (params : Params) (pattern : Path) :
    (invalidatePattern params pattern).Follows (knowing site) (fun k' (ok : Bool) => k.Clears k' ∧
      (ok → ∀ path, (cacheKey path).isSome → hits params path pattern → k'.Cleaned path)) k := by
  unfold invalidatePattern hits
  cases hparams : hasParams pattern with
  | false =>
    refine (buryPath_follows pattern).mono fun k' ok hk' => ⟨hk'.1, fun hok path hpath hhit => ?_⟩
    cases of_decide_eq_true hhit
    exact hk'.2 hok hpath
  | true =>
    simp only [if_true]
    cases expandPath pattern params with
    | some loc =>
      refine (buryPath_follows loc).mono fun k' ok hk' => ⟨hk'.1, fun hok path hpath hhit => ?_⟩
      cases of_decide_eq_true hhit
      exact hk'.2 hok hpath
    | none =>
      refine ⟨trivial, fun _ => (evictMatching_follows pattern).mono fun k' ok hk' => ?_⟩
      refine ⟨(clears_bury k pattern).trans hk'.1, fun hok path hpath hmatch => ?_⟩
      have hgone := hk'.2 hok path hpath hmatch
      refine ⟨hgone.1, hgone.2, hk'.1.buried path ?_⟩
      simp [knowing, Known.next, covers_match hparams hmatch]

theorem invalidateAll_follows (params : Params) (patterns : List Path) :
    (invalidateAll params patterns).Follows (knowing site) (fun k' (ok : Bool) => k.Clears k' ∧
      (ok → ∀ path, (cacheKey path).isSome → patterns.any (hits params path) → k'.Cleaned path)) k := by
  induction patterns generalizing k with
  | nil => exact ⟨.refl k, fun _ path _ hhit => (nomatch hhit)⟩
  | cons pattern patterns ih =>
    refine Script.follows_bind ((invalidatePattern_follows params pattern).mono fun k₁ ok hk₁ => ?_)
    cases ok with
    | false => exact ⟨hk₁.1, fun h => (nomatch h)⟩
    | true =>
      refine ih.mono fun k₂ ok hk₂ => ⟨hk₁.1.trans hk₂.1, fun hok path hpath hhit => ?_⟩
      rw [List.any_cons, Bool.or_eq_true] at hhit
      cases hhit with
      | inl hfirst => exact (hk₁.2 rfl path hpath hfirst).mono hk₂.1
      | inr hlater => exact hk₂.2 hok path hpath hlater

theorem invalidate_accepted (pattern : Path) (params : Params) :
    (knowing site).Accepts (Serving.invalidate site pattern params) := by
  intro k _
  refine ⟨trivial, fun _ => ?_⟩
  simp only [Script.ret_bind]
  refine Script.follows_bind ((invalidateAll_follows params _).mono fun k' ok hk' => ?_)
  cases ok with
  | false => trivial
  | true =>
    refine ⟨fun path hpath haff => hk'.2 rfl path hpath ?_, fun _ => trivial⟩
    rw [hk'.1.affects] at haff
    exact haff

theorem program_accepted {m : Serving.Proc Unit} (h : Serving.Program site m) : (knowing site).Accepts m := by
  cases h with
  | serveHTTP path => exact serveHTTP_accepted path
  | invalidate pattern params => exact invalidate_accepted pattern params

end invalidations

/-! ## Runs -/

section runs

variable {B : Type} {site : Site B} {w : World B}

/-- Nothing has been requested or invalidated, and what is stored are pages of canonical paths. -/
structure World.Starts (site : Site B) (w : World B) : Prop where
  cache : Holding site w.cache (fun _ => 0) fun _ => 0
  called : w.called = fun _ => 0
  settled : w.settled = fun _ => 0
  mem : w.clearedMem = fun _ => 0
  disk : w.clearedDisk = fun _ => 0
  seen : w.seen = fun _ => {}

theorem World.Starts.cleared (h : w.Starts site) : Cleared site w := by
  refine ⟨?_, ?_⟩
  · rw [h.mem, h.disk]
    exact h.cache
  · constructor
    · intro path
      rw [h.settled]
      exact Nat.zero_le _
    · intro path _
      rw [h.settled]
      exact Nat.zero_le _
    · intro path _
      rw [h.settled]
      exact Nat.zero_le _
    · intro path _ hpos
      rw [h.settled] at hpos
      exact absurd hpos (Nat.lt_irrefl 0)

theorem World.Starts.knows (h : w.Starts site) (i : Nat) : Knows w {} (w.seen i) := by
  rw [h.seen]
  refine ⟨Nat.zero_le _, fun n hn => (nomatch hn), fun hlive => (nomatch hlive), fun _ => Nat.zero_le _, fun _ _ => rfl,
    fun _ h => (nomatch h), fun _ h => (nomatch h), fun _ h => (nomatch h), fun _ h => (nomatch h), fun _ h => (nomatch h)⟩

/-- What is cleared is so, and every goroutine knows only what is so. -/
structure Guarded (site : Site B) (x : World B × (Nat → Known)) : Prop where
  cleared : Cleared site x.1
  knows : ∀ i, Knows x.1 (x.2 i) (x.1.seen i)

theorem Guarded.kept {x x' : World B × (Nat → Known)} {i : Nat} {k : Known} (hx : Guarded site x)
    (h : Kept site i x.1 x'.1 k) (hknown : x'.2 = Function.update x.2 i k) : Guarded site x' := by
  refine ⟨h.cleared, fun j => ?_⟩
  rw [hknown]
  rcases eq_or_ne j i with rfl | hj
  · rw [Function.update_self]
    exact h.knows
  · rw [Function.update_of_ne hj, h.others j hj]
    exact (hx.knows j).mono h.grows

/-- In every run in which no page is stored or handed on that an invalidation has outdated, no response
holds a page that was loaded before an invalidation that had returned when its request began. -/
theorem invalidate_is_barrier (site : Site B) {w : World B} (hstart : w.Starts site) {past : List (Pool Op (World B) Unit)}
    {p : Pool Op (World B) Unit} (h : Run (Pool.Next ((machine site).given KeepsOld) (Serving.Program site)) (.idle w) past p) :
    p.shared.Barrier := by
  obtain ⟨past', q, hrun, rfl⟩ := Pool.run_watched (W := knowing site) h
  have hguarded : Guarded site q.shared := by
    refine Pool.watched_invariant hrun (fun m hm => program_accepted hm) ⟨hstart.cleared, hstart.knows⟩ ?_ ?_ ?_
    · intro i β o r x x' hx hallows _ hs hknown
      exact hx.kept (Step.kept hs.2 hallows hs.1 hx.cleared (hx.knows i)) hknown
    · intro i x hx
      have hsame : Function.update x.2 i ((knowing site).abort (x.2 i)) = x.2 := Function.update_eq_self ..
      rw [hsame]
      exact hx
    · intro x s' hx hs
      cases hs
      exact hx
  exact fun i s hserved => (hguarded.knows i).served s hserved

end runs

/-! ### A load that is overtaken -/

/-- The documents of entries, beside the store's own. -/
def pageDocuments : Disk Page (Entry ⊕ GoString ⊕ Storagex.Meta) where
  len
    | .inl ent => ent.html.html.length
    | .inr b => Storagex.documents.len b
  sha256
    | .inl ent => ent.propsSHA256
    | .inr b => Storagex.documents.sha256 b
  detectContentType _ := "text/plain; charset=utf-8"
  dirSize := 4096
  marshal m := .inr (.inr m)
  unmarshal
    | .inr (.inr m) => some m
    | _ => none
  unmarshal_marshal m := ⟨m.filename, rfl⟩
  encode := .inl
  decode
    | .inl ent => some ent
    | .inr _ => none
  decode_encode _ := rfl

abbrev PageWorld := World (Entry ⊕ GoString ⊕ Storagex.Meta)

/-- One static page, "/a". -/
def oneRoute : Site (Entry ⊕ GoString ⊕ Storagex.Meta) where
  disk := pageDocuments
  buildID := "build"
  statics := [⟨lit "/a", "a", .static, .unset⟩]
  prerenderFS := none
  registry := ⟨∅, ∅, ∅⟩

def newWorld : PageWorld where
  cache := ⟨"build", 1000, .newMemCache 8, some .empty⟩
  dead := {}
  flights _ := none
  inFlight _ := none
  nextFlight := 0
  called _ := 0
  settled _ := 0
  clearedMem _ := 0
  clearedDisk _ := 0
  seen _ := {}

theorem newWorld_starts : newWorld.Starts oneRoute := by
  refine ⟨⟨fun key ent hpeek => ?_, fun t ht => ?_⟩, rfl, rfl, rfl, rfl, rfl⟩
  · cases hpeek
  · cases ht
    exact ⟨fun _ => none, .empty, fun k e hs => (nomatch hs), fun path key ent _ hs => (nomatch hs)⟩

/-- Execute a call at time 1, where nothing is poisoned and every page can be loaded. -/
def execs (i : Nat) {β : Type} (o : Op β) (w : PageWorld) : Option (β × PageWorld) :=
  match β, o with
  | _, .requested path => some ((), w.begin i path)
  | _, .embedDead path => some (w.dead.has path, w)
  | _, .poisoned _ => some (false, w)
  | _, .poison _ => some ((), w)
  | _, .memGet key => some ((w.cache.fromMem 1 key).1, { w with cache := (w.cache.fromMem 1 key).2 })
  | _, .diskGet key => some ((w.cache.fromDisk pageDocuments 1 key).1, { w with cache := (w.cache.fromDisk pageDocuments 1 key).2 })
  | _, .memPut key ent => some ((), { w with cache := w.cache.keep key ent })
  | _, .diskPut key ent => some ((), { w with cache := (w.cache.putDisk pageDocuments key ent).2 })
  | _, .memPeek key => some (w.cache.mem.peek key, w)
  | _, .diskPeek key => some (w.cache.diskPeek pageDocuments key, w)
  | _, .now => some (1, w)
  | _, .join path => some ((w.join path).1, (w.join path).2)
  | _, .load path _ _ => some (.ok ⟨⟨path, w.called path⟩, "", 0, ""⟩, w)
  | _, .land id r => some ((), w.land id r)
  | _, .wait id => ((w.flights id).bind Flight.result).map fun r => (r, w)
  | _, .serve _ page => some ((), w.serve i page)
  | _, .called pattern params => some ((), w.call i (oneRoute.affects pattern params))
  | _, .bury pathOrPattern => some ((), { w with dead := w.dead.add pathOrPattern })
  | _, .memDelete key => some ((), w.memDelete i key)
  | _, .diskDelete key => some ((w.diskDelete i key).1, (w.diskDelete i key).2)
  | _, .memKeys => some (w.memKeys i)
  | _, .diskKeys => some (w.diskKeys i)
  | _, .returned => some ((), w.settle i)

theorem execs_step (i : Nat) {β : Type} (o : Op β) (w : PageWorld) (r : β) (w' : PageWorld) (h : execs i o w = some (r, w')) :
    (machine oneRoute).step i o w r w' := by
  cases o with
  | memGet key =>
    cases h
    exact ⟨1, rfl, rfl⟩
  | diskGet key =>
    cases h
    exact ⟨1, rfl, rfl⟩
  | load path rt params =>
    cases h
    refine ⟨fun ent hent => ?_, rfl⟩
    cases hent
    exact ⟨rfl, rfl, rfl⟩
  | wait id =>
    obtain ⟨r', hr', heq⟩ := Option.map_eq_some_iff.1 h
    cases heq
    obtain ⟨f, hflight, hresult⟩ := Option.bind_eq_some_iff.1 hr'
    exact ⟨⟨f, hflight, hresult⟩, rfl⟩
  | _ =>
    cases h
    first | rfl | exact ⟨rfl, rfl⟩

def keepsOld (i : Nat) : {β : Type} → Op β → PageWorld → Bool
  | _, .memPut key ent, w => w.clearedMem (keyToPath key) ≤ ent.html.loaded
  | _, .diskPut key ent, w => w.clearedDisk (keyToPath key) ≤ ent.html.loaded
  | _, .wait id, w => ((w.flights id).bind Flight.result).all fun r =>
      (pageOf r).all fun ent => (w.seen i).began ≤ ent.html.loaded
  | _, _, _ => true

theorem keepsOld_holds (i : Nat) {β : Type} (o : Op β) (w : PageWorld) (h : keepsOld i o w) : KeepsOld i o w := by
  cases o with
  | memPut key ent =>
    intro path hkey
    rw [← keyToPath_cacheKey hkey]
    exact of_decide_eq_true h
  | diskPut key ent =>
    intro path hkey _
    rw [← keyToPath_cacheKey hkey]
    exact of_decide_eq_true h
  | wait id =>
    intro f ent hit hflight hresult
    simp only [keepsOld, hflight, hresult, Option.bind_some, Option.all_some, pageOf] at h
    exact of_decide_eq_true h
  | _ => trivial

abbrev Turns := List (Turn Op PageWorld Unit)

/-- A request for "/a", for so many calls. -/
def asks (i n : Nat) : Turns := [.start i (Serving.serveHTTP oneRoute (lit "/a")), .calls i n]

/-- An invalidation of "/a". -/
def invalidates (i : Nat) : Turns := [.start i (Serving.invalidate oneRoute (lit "/a") ∅), .calls i 5]

variable {M : Machine Op PageWorld}

theorem asks_legal (i n : Nat) : (asks i n).Forall (Turn.Legal M (Serving.Program oneRoute)) :=
  ⟨.serveHTTP _, trivial⟩

theorem invalidates_legal (i : Nat) : (invalidates i).Forall (Turn.Legal M (Serving.Program oneRoute)) :=
  ⟨.invalidate _ _, trivial⟩

/-- A page that is stored, and loaded again after the invalidation. -/
def askedAgain : Turns := asks 0 13 ++ invalidates 1 ++ asks 2 13

theorem askedAgain_legal : askedAgain.Forall (Turn.Legal M (Serving.Program oneRoute)) :=
  List.forall_append.2 ⟨List.forall_append.2 ⟨asks_legal 0 13, invalidates_legal 1⟩, asks_legal 2 13⟩

theorem barrier_askedAgain : ∃ past p,
    Run (Pool.Next ((machine oneRoute).given KeepsOld) (Serving.Program oneRoute)) (.idle newWorld) past p ∧
    ((p.shared.seen 2).served.any fun s => s.began = 1) ∧ p.shared.Barrier := by
  have hplay : (Pool.play (guarded keepsOld execs) askedAgain (.idle newWorld)).any fun p =>
      (p.shared.seen 2).served.any fun s => s.began = 1 := by decide
  obtain ⟨past, p, hrun, hcheck⟩ := Pool.play_any (guarded_step keepsOld_holds execs_step) askedAgain_legal hplay
  exact ⟨past, p, hrun, hcheck, invalidate_is_barrier oneRoute newWorld_starts hrun⟩

/-- A page is stored after the invalidation has returned, which was loaded before it was called; the next
request begins then. -/
def overtaken : Turns := asks 0 8 ++ invalidates 1 ++ [.calls 0 2] ++ asks 2 4

theorem overtaken_legal : overtaken.Forall (Turn.Legal M (Serving.Program oneRoute)) := by
  refine List.forall_append.2 ⟨List.forall_append.2 ⟨List.forall_append.2 ⟨asks_legal 0 8, invalidates_legal 1⟩, ?_⟩, asks_legal 2 4⟩
  trivial

theorem outdated_page_served : ¬ ∀ (B : Type) (site : Site B) (w : World B), w.Starts site →
    ∀ past (p : Pool Op (World B) Unit), Run (Pool.Next (machine site) (Serving.Program site)) (.idle w) past p →
      p.shared.Barrier := by
  intro h
  have hplay : (Pool.play execs overtaken (.idle newWorld)).any fun p =>
      (p.shared.seen 2).served.any fun s => s.page.loaded < s.began := by decide
  obtain ⟨past, p, hrun, hcheck⟩ := Pool.play_any execs_step overtaken_legal hplay
  obtain ⟨s, hserved, hlate⟩ := Option.any_eq_true _ _ |>.1 hcheck
  exact absurd (h _ oneRoute newWorld newWorld_starts past p hrun 2 s hserved) (not_le.2 (of_decide_eq_true hlate))

end Ploykit.Renderx.Pages

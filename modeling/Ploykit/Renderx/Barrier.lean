import Ploykit.Renderx.CacheMap
import Ploykit.Renderx.Serving

/-!
# Invalidation as a barrier

The number of a page is that of the last invalidation of its path that had been called when
its data were loaded. What has been cleared from memory and disk is counted in the same way.
-/

namespace Ploykit.Renderx.Pages

open Lib GoString

/-- Every response holds a page that was loaded after the invalidations that had returned when the request began. -/
def World.Barrier {B : Type} (w : World B) : Prop := ∀ i s, (w.seen i).served = some s → s.began ≤ s.page.loaded

/-- No page is stored where an invalidation has cleared it after its data were loaded, and no load hands
a page to a request that began after such an invalidation had returned. -/
def KeepsOld {B : Type} (i : Nat) : {β : Type} → Op β → World B → Prop
  | _, .memPut key ent, w => ∀ path, cacheKey path = some key → w.clearedMem path ≤ ent.html.loaded
  | _, .diskPut key ent, w => ∀ path, cacheKey path = some key → Storagex.validKey (diskKey key) →
      w.clearedDisk path ≤ ent.html.loaded
  | _, .wait id, w => ∀ f ent hit, w.flights id = some f → f.result = some (.ok (ent, hit)) →
      (w.seen i).began ≤ ent.html.loaded
  | _, _, _ => True

/-! ## What a goroutine knows -/

/-- What a goroutine has read for its request, and what its invalidation has cleared. -/
structure Known where
  path : Path := []
  /-- The numbers of the pages that it has got for the path. -/
  got : List Nat := []
  /-- The embedded page of the path had no tombstone. -/
  live : Bool := false
  affects : Path → Bool := fun _ => false
  mem : Path → Bool := fun _ => false
  disk : Path → Bool := fun _ => false
  buried : Path → Bool := fun _ => false
  /-- The keys that it has listed. -/
  listed : List GoString := []

namespace Known

def reads (k : Known) (ent : Option Entry) : Known := { k with got := (ent.map fun e => e.html.loaded).toList ++ k.got }

/-- A tombstone lies over the path. -/
def covers (pathOrPattern path : Path) : Bool := (EmbedTombstone.add {} pathOrPattern).has path

def Allows : {β : Type} → Known → Op β → Prop
  | _, k, .embedDead path => path = k.path
  | _, k, .memGet key => cacheKey k.path = some key
  | _, k, .diskGet key => cacheKey k.path = some key
  | _, k, .memPeek key => cacheKey k.path = some key
  | _, k, .diskPeek key => cacheKey k.path = some key
  | _, k, .memPut key _ => cacheKey k.path = some key
  | _, k, .diskPut key _ => cacheKey k.path = some key
  | _, k, .load path _ _ => path = k.path
  | _, k, .diskDelete key => key ∈ k.listed ∨ ∃ path, cacheKey path = some key
  | _, k, .serve path page => path = k.path ∧ (page.loaded ∈ k.got ∨ k.live ∧ (cacheKey path).isSome)
  | _, k, .returned => ∀ path, (cacheKey path).isSome → k.affects path → k.mem path ∧ k.disk path ∧ k.buried path
  | _, _, _ => True

def next (affects : Path → Params → Path → Bool) : {β : Type} → Known → Op β → β → Known
  | _, k, .requested path, _ => { k with path, got := [], live := false }
  | _, k, .embedDead _, dead => { k with live := !dead }
  | _, k, .memGet _, r => k.reads r
  | _, k, .diskGet _, r => k.reads r
  | _, k, .memPeek _, r => k.reads r
  | _, k, .diskPeek _, r => k.reads r
  | _, k, .load _ _ _, r => k.reads r.toOption
  | _, k, .wait _, r => k.reads (r.toOption.map Prod.fst)
  | _, k, .called pattern params, _ =>
    { k with affects := affects pattern params, mem := fun _ => false, disk := fun _ => false, buried := fun _ => false }
  | _, k, .bury p, _ => { k with buried := fun path => k.buried path || covers p path }
  | _, k, .memDelete key, _ => { k with mem := fun path => k.mem path || World.hasKey key path }
  | _, k, .diskDelete key, ok => { k with disk := fun path => k.disk path || (ok && World.hasKey key path) }
  | _, k, .memKeys, keys => 
    { k with mem := fun path => k.mem path || World.absent keys path, listed := keys ++ k.listed }
  | _, k, .diskKeys, keys => 
    { k with disk := fun path => k.disk path || World.absent keys path, listed := keys ++ k.listed }
  | _, k, _, _ => k

end Known

def knowing {B : Type} (site : Site B) : Monitor Op Known where
  allows k := k.Allows
  next k := k.next site.affects
  rests _ := True
  init := {}
  abort k := k
  init_rests := trivial
  abort_rests _ := trivial

/-! ## What has been cleared -/

section cleared

variable {B : Type} {site : Site B} {w w' : World B} {i : Nat} {path : Path} {key : GoString}

/-- Memory and disk hold entries of canonical paths, none of which is older than what has been cleared. -/
structure Holding (site : Site B) (c : LayeredCache Page B) (clearedMem clearedDisk : Path → Nat) : Prop where
  mem : ∀ key ent, c.mem.peek key = some ent → ∃ path, cacheKey path = some key ∧ clearedMem path ≤ ent.html.loaded
  disk : ∀ t, c.disk = some t → ∃ s, Storagex.Holds site.disk.toContents (DiskKeys Set.univ) s t ∧ Entries site.disk s ∧
    ∀ path key ent, cacheKey path = some key → s (diskKey key) = some (entryOnDisk site.disk ent) →
      clearedDisk path ≤ ent.html.loaded

/-- What an invalidation that has returned affects is cleared. -/
structure Settled (w : World B) : Prop where
  called : ∀ path, w.settled path ≤ w.called path
  mem : ∀ path, (cacheKey path).isSome → w.settled path ≤ w.clearedMem path
  disk : ∀ path, (cacheKey path).isSome → w.settled path ≤ w.clearedDisk path
  dead : ∀ path, (cacheKey path).isSome → 0 < w.settled path → w.dead.has path

structure Cleared (site : Site B) (w : World B) : Prop where
  holding : Holding site w.cache w.clearedMem w.clearedDisk
  settled : Settled w

/-- What a goroutine knows is so. -/
structure Knows (w : World B) (k : Known) (s : Seen) : Prop where
  began : s.began ≤ w.settled k.path
  got : ∀ n ∈ k.got, s.began ≤ n
  live : k.live → (cacheKey k.path).isSome → s.began = 0
  called : ∀ path, s.called path ≤ w.called path
  affects : ∀ path, k.affects path = false → s.called path = 0
  mem : ∀ path, k.mem path → s.called path ≤ w.clearedMem path
  disk : ∀ path, k.disk path → s.called path ≤ w.clearedDisk path
  buried : ∀ path, k.buried path → w.dead.has path
  listed : ∀ key ∈ k.listed, ∃ path, cacheKey path = some key
  served : ∀ x, s.served = some x → x.began ≤ x.page.loaded

/-- Counts and tombstones only grow. -/
structure Grows (w w' : World B) : Prop where
  called : ∀ path, w.called path ≤ w'.called path
  settled : ∀ path, w.settled path ≤ w'.settled path
  mem : ∀ path, w.clearedMem path ≤ w'.clearedMem path
  disk : ∀ path, w.clearedDisk path ≤ w'.clearedDisk path
  dead : ∀ path, w.dead.has path → w'.dead.has path

theorem Grows.refl (w : World B) : Grows w w :=
  ⟨fun _ => le_rfl, fun _ => le_rfl, fun _ => le_rfl, fun _ => le_rfl, fun _ h => h⟩

theorem Knows.mono {k : Known} {s : Seen} (h : Knows w k s) (hgrows : Grows w w') : Knows w' k s where
  began := h.began.trans (hgrows.settled _)
  got := h.got
  live := h.live
  called path := (h.called path).trans (hgrows.called path)
  affects := h.affects
  mem path hm := (h.mem path hm).trans (hgrows.mem path)
  disk path hd := (h.disk path hd).trans (hgrows.disk path)
  buried path hb := hgrows.dead path (h.buried path hb)
  listed := h.listed
  served := h.served

/-- A page that is read is not older than the request allows. -/
theorem Knows.reads {k : Known} {s : Seen} (h : Knows w k s) {r : Option Entry}
    (hr : ∀ ent, r = some ent → s.began ≤ ent.html.loaded) : Knows w (k.reads r) s :=
  { h with
    got := by
      intro n hn
      cases List.mem_append.1 hn with
      | inr hold => exact h.got n hold
      | inl hnew =>
        obtain ⟨ent, hent, rfl⟩ := Option.map_eq_some_iff.1 (Option.mem_toList.1 hnew)
        exact hr ent hent }

/-! ## Reading -/

variable {c : LayeredCache Page B} {cm cd : Path → Nat}

theorem Holding.mem_path (h : Holding site c cm cd) {ent : Entry}
    (hkey : cacheKey path = some key) (hpeek : c.mem.peek key = some ent) : cm path ≤ ent.html.loaded := by
  obtain ⟨path', hkey', hle⟩ := h.mem key ent hpeek
  rwa [cacheKey_inj hkey hkey']

theorem Holding.fromMem (h : Holding site c cm cd) (now : Int)
    (hkey : cacheKey path = some key) :
    (∀ ent, (c.fromMem now key).1 = some ent → cm path ≤ ent.html.loaded) ∧ Holding site (c.fromMem now key).2 cm cd := by
  rw [fromMem_eq]
  refine ⟨fun ent hent => h.mem_path hkey (Option.filter_eq_some_iff.1 hent).1, fun k ent hpeek => ?_, h.disk⟩
  exact h.mem k ent (MemCache.peek_get.symm.trans hpeek)

/-- What is read on disk, by a look that changes nothing. -/
theorem Holding.open_disk (h : Holding site c cm cd)
    (hkey : cacheKey path = some key) {t : Storagex.Tree B} (hdisk : c.disk = some t) :
    (∃ e, Storagex.openObject site.disk.toContents (diskKey key) t = .error e) ∨
      ∃ ent o, Storagex.openObject site.disk.toContents (diskKey key) t = .ok (.file (site.disk.encode ent), o) ∧
        cd path ≤ ent.html.loaded := by
  obtain ⟨s, hholds, hentries, hle⟩ := h.disk t hdisk
  refine (hentries.open_entry hholds (Set.mem_univ path) hkey).imp ?_ ?_
  · rintro ⟨e, hopen, _⟩
    exact ⟨e, hopen⟩
  · rintro ⟨ent, o, hopen, hs⟩
    exact ⟨ent, o, hopen, hle path key ent hkey hs⟩

theorem Holding.fromDisk (h : Holding site c cm cd) (now : Int)
    (hkey : cacheKey path = some key) :
    (∀ ent, (c.fromDisk site.disk now key).1 = some ent → cd path ≤ ent.html.loaded) ∧
      (c.fromDisk site.disk now key).2 = c := by
  cases hdisk : c.disk with
  | none =>
    simp only [LayeredCache.fromDisk, hdisk]
    exact ⟨fun ent hent => (by cases hent), trivial⟩
  | some t =>
    simp only [LayeredCache.fromDisk, hdisk]
    rcases h.open_disk hkey hdisk with ⟨e, hopen⟩ | ⟨ent, o, hopen, hle⟩
    · simp only [hopen]
      exact ⟨fun ent hent => (by cases hent), trivial⟩
    · simp only [hopen, LayeredCache.decodeNode, site.disk.decode_encode]
      refine ⟨fun ent' hent => ?_, trivial⟩
      split at hent
      · cases hent
      · cases hent
        exact hle

theorem Holding.diskPeek (h : Holding site c cm cd)
    (hkey : cacheKey path = some key) {ent : Entry} (hent : c.diskPeek site.disk key = some ent) :
    cd path ≤ ent.html.loaded := by
  cases hdisk : c.disk with
  | none =>
    simp only [LayeredCache.diskPeek, hdisk] at hent
    cases hent
  | some t =>
    simp only [LayeredCache.diskPeek, hdisk] at hent
    rcases h.open_disk hkey hdisk with ⟨e, hopen⟩ | ⟨ent', o, hopen, hle⟩
    · simp only [hopen] at hent
      cases hent
    · simp only [hopen, LayeredCache.decodeNode, site.disk.decode_encode] at hent
      cases hent
      exact hle

/-! ## Writing and clearing -/

theorem Holding.keep (h : Holding site c cm cd)
    (hkey : cacheKey path = some key) {ent : Entry} (hle : cm path ≤ ent.html.loaded) : Holding site (c.keep key ent) cm cd where
  mem k e hpeek := by
    rcases MemCache.peek_of_put hpeek with ⟨rfl, rfl⟩ | ⟨_, hold⟩
    · exact ⟨path, hkey, hle⟩
    · exact h.mem k e hold
  disk := h.disk

theorem Holding.putDisk (h : Holding site c cm cd)
    (hkey : cacheKey path = some key) {ent : Entry}
    (hle : Storagex.validKey (diskKey key) → cd path ≤ ent.html.loaded) :
    Holding site (c.putDisk site.disk key ent).2 cm cd := by
  cases hdisk : c.disk with
  | none =>
    simp only [LayeredCache.putDisk, hdisk]
    exact h
  | some t =>
    obtain ⟨s, hholds, hentries, hold⟩ := h.disk t hdisk
    by_cases hvalid : Storagex.validKey (diskKey key)
    · obtain ⟨t', hput, hholds'⟩ := hholds.put_eq (diskKeys_valid _) (diskKeys_noDirs _) (diskKeys_apart _)
        ⟨hvalid, path, Set.mem_univ path, key, hkey, rfl⟩ "application/json" (site.disk.encode ent)
      simp only [LayeredCache.putDisk, hdisk, hput]
      refine ⟨h.mem, fun t'' ht => ?_⟩
      cases ht
      refine ⟨_, hholds', fun k e hs => ?_, fun path' key' ent' hkey' hs => ?_⟩
      · rcases eq_or_ne k (diskKey key) with rfl | hne
        · rw [Function.update_self] at hs
          cases hs
          exact ⟨path, key, ent, hkey, rfl, hvalid, rfl⟩
        · exact hentries k e (by rwa [Function.update_of_ne hne] at hs)
      · rcases eq_or_ne (diskKey key') (diskKey key) with heq | hne
        · rw [heq, Function.update_self] at hs
          have hkeys : key' = key := List.append_cancel_right heq
          have hent : ent = ent' := encode_inj (congrArg Storagex.Entry.body (Option.some.inj hs))
          rw [← hent, cacheKey_inj hkey' (hkeys ▸ hkey)]
          exact hle hvalid
        · exact hold path' key' ent' hkey' (by rwa [Function.update_of_ne hne] at hs)
    · simp only [LayeredCache.putDisk, hdisk, Storagex.put_refused site.disk.toContents t hvalid]
      refine ⟨h.mem, fun t' ht => ?_⟩
      cases ht
      exact ⟨s, hholds, hentries, hold⟩

theorem Holding.deleteMem {cm cm' cd : Path → Nat} (h : Holding site c cm cd)
    (hother : ∀ path, cacheKey path ≠ some key → cm' path = cm path) : Holding site (c.deleteMem key) cm' cd where
  mem k e hpeek := by
    have hpeek' : (c.mem.delete key).peek k = some e := hpeek
    rw [MemCache.peek_delete] at hpeek'
    split at hpeek'
    · cases hpeek'
    · rename_i hne
      obtain ⟨path, hkey, hle⟩ := h.mem k e hpeek'
      refine ⟨path, hkey, ?_⟩
      rwa [hother path fun heq => hne (Option.some.inj (hkey.symm.trans heq))]
  disk := h.disk

/-- Where the store answers, the entry is gone. -/
theorem Holding.deleteDisk (h : Holding site c cm cd)
    (hkey : cacheKey path = some key) :
    Holding site (c.deleteDisk key).2 cm cd ∧ ((c.deleteDisk key).1 = [] → ∀ cd' : Path → Nat,
      (∀ path, cacheKey path ≠ some key → cd' path = cd path) → Holding site (c.deleteDisk key).2 cm cd') := by
  cases hdisk : c.disk with
  | none =>
    simp only [LayeredCache.deleteDisk, hdisk]
    refine ⟨h, fun _ cd' _ => ⟨h.mem, fun t ht => ?_⟩⟩
    rw [hdisk] at ht
    cases ht
  | some t =>
    obtain ⟨s, hholds, hentries, hold⟩ := h.disk t hdisk
    by_cases hvalid : Storagex.validKey (diskKey key)
    · obtain ⟨t', hdel, hholds'⟩ := hholds.delete_eq (diskKeys_valid _) (diskKeys_noDirs _) (diskKeys_apart _)
        ⟨hvalid, path, Set.mem_univ path, key, hkey, rfl⟩
      simp only [LayeredCache.deleteDisk, hdisk, hdel]
      have hgone : ∀ cd' : Path → Nat, (∀ path, cacheKey path ≠ some key → cd' path = cd path) →
          Holding site { c with disk := some t' } cm cd' := by
        intro cd' hother
        refine ⟨h.mem, fun t'' ht => ?_⟩
        cases ht
        refine ⟨_, hholds', fun k e hs => ?_, fun path' key' ent' hkey' hs => ?_⟩
        · rcases eq_or_ne k (diskKey key) with rfl | hne
          · rw [Function.update_self] at hs
            cases hs
          · exact hentries k e (by rwa [Function.update_of_ne hne] at hs)
        · rcases eq_or_ne key' key with rfl | hne
          · rw [Function.update_self] at hs
            cases hs
          · have hdisk' : diskKey key' ≠ diskKey key := fun heq => hne (List.append_cancel_right heq)
            rw [Function.update_of_ne hdisk'] at hs
            rw [hother path' fun heq => hne (Option.some.inj (hkey'.symm.trans heq))]
            exact hold path' key' ent' hkey' hs
      exact ⟨hgone cd fun _ _ => rfl, fun _ => hgone⟩
    · simp only [LayeredCache.deleteDisk, hdisk, Storagex.delete_refused t hvalid]
      refine ⟨⟨h.mem, fun t' ht => ?_⟩, fun herr => (by cases herr)⟩
      cases ht
      exact ⟨s, hholds, hentries, hold⟩

/-! ## Each call -/

/-- After a call of goroutine `i`, which then knows `k`. -/
structure Kept (site : Site B) (i : Nat) (w w' : World B) (k : Known) : Prop where
  cleared : Cleared site w'
  grows : Grows w w'
  knows : Knows w' k (w'.seen i)
  others : ∀ j, j ≠ i → w'.seen j = w.seen j

variable {k : Known}

/-- A call that only reads. -/
theorem Kept.read (hw : Cleared site w) (hk : Knows w k (w.seen i)) : Kept site i w w k :=
  ⟨hw, .refl w, hk, fun _ _ => rfl⟩

/-- A call that changes the cache alone. -/
theorem Kept.cache (hw : Cleared site w) (hc : Holding site c w.clearedMem w.clearedDisk)
    (hk : Knows w k (w.seen i)) : Kept site i w { w with cache := c } k :=
  ⟨⟨hc, ⟨hw.settled.called, hw.settled.mem, hw.settled.disk, hw.settled.dead⟩⟩, ⟨fun _ => le_rfl, fun _ => le_rfl, fun _ => le_rfl, fun _ => le_rfl, fun _ h => h⟩,
    ⟨hk.began, hk.got, hk.live, hk.called, hk.affects, hk.mem, hk.disk, hk.buried, hk.listed, hk.served⟩, fun _ _ => rfl⟩

theorem seen_see (f : Seen → Seen) (j : Nat) : (w.see i f).seen j = if j = i then f (w.seen i) else w.seen j := by
  rw [World.see]
  split
  · rename_i hj
    rw [hj]
    exact Function.update_self ..
  · rename_i hj
    exact Function.update_of_ne hj ..

theorem seen_call (affects : Path → Bool) (j : Nat) : (w.call i affects).seen j =
    if j = i then { w.seen i with called := fun path => if affects path then w.called path + 1 else 0 } else w.seen j :=
  seen_see (fun s => { s with called := fun path => if affects path then w.called path + 1 else 0 }) j

theorem Kept.requested (hw : Cleared site w) (hk : Knows w k (w.seen i)) (path : Path) :
    Kept site i w (w.begin i path) { k with path, got := [], live := false } := by
  refine ⟨⟨hw.holding, ⟨hw.settled.called, hw.settled.mem, hw.settled.disk, hw.settled.dead⟩⟩, ⟨fun _ => le_rfl, fun _ => le_rfl, fun _ => le_rfl, fun _ => le_rfl, fun _ h => h⟩, ?_,
    fun j hj => (seen_see _ j).trans (if_neg hj)⟩
  rw [World.begin, seen_see, if_pos rfl]
  exact ⟨le_rfl, fun n hn => (nomatch hn), fun hlive => (nomatch hlive), hk.called, hk.affects, hk.mem, hk.disk, hk.buried,
    hk.listed, hk.served⟩

theorem Kept.embedDead (hw : Cleared site w) (hk : Knows w k (w.seen i)) :
    Kept site i w w { k with live := !w.dead.has k.path } := by
  refine .read hw { hk with live := fun hlive hcanon => ?_ }
  have hnone : ¬ 0 < w.settled k.path := fun hpos => by
    simp [hw.settled.dead k.path hcanon hpos] at hlive
  exact Nat.le_zero.1 (hk.began.trans (Nat.not_lt.1 hnone))

theorem Kept.serve (hw : Cleared site w) (hk : Knows w k (w.seen i)) {page : Page}
    (hpage : (w.seen i).began ≤ page.loaded) : Kept site i w (w.serve i page) k := by
  refine ⟨⟨hw.holding, ⟨hw.settled.called, hw.settled.mem, hw.settled.disk, hw.settled.dead⟩⟩, ⟨fun _ => le_rfl, fun _ => le_rfl, fun _ => le_rfl, fun _ => le_rfl, fun _ h => h⟩, ?_,
    fun j hj => (seen_see _ j).trans (if_neg hj)⟩
  rw [World.serve, seen_see, if_pos rfl]
  refine ⟨hk.began, hk.got, hk.live, hk.called, hk.affects, hk.mem, hk.disk, hk.buried, hk.listed, fun x hx => ?_⟩
  cases hx
  exact hpage

theorem Kept.called (hw : Cleared site w) (hk : Knows w k (w.seen i)) (affects : Path → Bool) :
    Kept site i w (w.call i affects)
      { k with affects, mem := fun _ => false, disk := fun _ => false, buried := fun _ => false } := by
  have hmore : ∀ path, w.called path ≤ if affects path then w.called path + 1 else w.called path := by
    intro path
    split
    · exact Nat.le_succ _
    · exact le_rfl
  refine ⟨⟨hw.holding, ⟨fun path => (hw.settled.called path).trans (hmore path), hw.settled.mem, hw.settled.disk,
      hw.settled.dead⟩⟩, ⟨hmore, fun _ => le_rfl, fun _ => le_rfl, fun _ => le_rfl, fun _ h => h⟩, ?_,
    fun j hj => (seen_call affects j).trans (if_neg hj)⟩
  rw [seen_call, if_pos rfl]
  refine ⟨hk.began, hk.got, hk.live, fun path => ?_, fun path hnot => ?_, fun path h => (nomatch h), fun path h => (nomatch h),
    fun path h => (nomatch h), hk.listed, hk.served⟩
  · simp only [World.call]
    split
    · exact le_rfl
    · exact Nat.zero_le _
  · simp only at hnot ⊢
    rw [hnot]
    rfl

/-! ### Clearing -/

theorem le_later (cleared : Path → Nat) (which : Path → Bool) (path : Path) : cleared path ≤ w.later i cleared which path := by
  unfold World.later
  split
  · exact le_max_left _ _
  · exact le_rfl

variable {which : Path → Bool}

theorem called_le_later {cleared : Path → Nat} {path : Path} (h : which path) :
    (w.seen i).called path ≤ w.later i cleared which path := by
  rw [World.later, if_pos h]
  exact le_max_right _ _

theorem later_same {cleared : Path → Nat} {path : Path} (h : which path = false) :
    w.later i cleared which path = cleared path := by
  rw [World.later, h]
  rfl

theorem hasKey_false (h : cacheKey path ≠ some key) : World.hasKey key path = false := decide_eq_false h

/-- More of the memory is cleared. -/
theorem Kept.clearMem (hw : Cleared site w) (hk : Knows w k (w.seen i))
    (hc : Holding site c (w.later i w.clearedMem which) w.clearedDisk) :
    Kept site i w { w with cache := c, clearedMem := w.later i w.clearedMem which }
      { k with mem := fun path => k.mem path || which path } := by
  have hgrows := le_later (w := w) (i := i) w.clearedMem which
  refine ⟨⟨hc, ⟨hw.settled.called, fun path hp => (hw.settled.mem path hp).trans (hgrows path), hw.settled.disk,
      hw.settled.dead⟩⟩, ⟨fun _ => le_rfl, fun _ => le_rfl, hgrows, fun _ => le_rfl, fun _ h => h⟩,
    ⟨hk.began, hk.got, hk.live, hk.called, hk.affects, fun path hm => ?_, hk.disk, hk.buried, hk.listed, hk.served⟩,
    fun _ _ => rfl⟩
  cases Bool.or_eq_true .. ▸ hm with
  | inl hold => exact (hk.mem path hold).trans (hgrows path)
  | inr hnew => exact called_le_later hnew

theorem Kept.clearDisk (hw : Cleared site w) (hk : Knows w k (w.seen i))
    (hc : Holding site c w.clearedMem (w.later i w.clearedDisk which)) :
    Kept site i w { w with cache := c, clearedDisk := w.later i w.clearedDisk which }
      { k with disk := fun path => k.disk path || which path } := by
  have hgrows := le_later (w := w) (i := i) w.clearedDisk which
  refine ⟨⟨hc, ⟨hw.settled.called, hw.settled.mem, fun path hp => (hw.settled.disk path hp).trans (hgrows path),
      hw.settled.dead⟩⟩, ⟨fun _ => le_rfl, fun _ => le_rfl, fun _ => le_rfl, hgrows, fun _ h => h⟩,
    ⟨hk.began, hk.got, hk.live, hk.called, hk.affects, hk.mem, fun path hd => ?_, hk.buried, hk.listed, hk.served⟩,
    fun _ _ => rfl⟩
  cases Bool.or_eq_true .. ▸ hd with
  | inl hold => exact (hk.disk path hold).trans (hgrows path)
  | inr hnew => exact called_le_later hnew

/-- The goroutine has listed keys of entries. -/
theorem Kept.listing {w' : World B} (h : Kept site i w w' k) {keys : List GoString}
    (hkeys : ∀ key ∈ keys, ∃ path, cacheKey path = some key) : Kept site i w w' { k with listed := keys ++ k.listed } :=
  { h with
    knows :=
      { h.knows with
        listed := fun key hkey => (List.mem_append.1 hkey).elim (hkeys key) (h.knows.listed key) } }

theorem Kept.memKeys (hw : Cleared site w) (hk : Knows w k (w.seen i)) :
    Kept site i w (w.memKeys i).2 { k with
      mem := fun path => k.mem path || World.absent w.cache.mem.keys path, listed := w.cache.mem.keys ++ k.listed } := by
  have hkeys : ∀ key ∈ w.cache.mem.keys, ∃ path, cacheKey path = some key := by
    intro key hkey
    obtain ⟨ent, hent⟩ := Option.ne_none_iff_exists'.1 (MemCache.mem_keys.1 hkey)
    obtain ⟨path, hpath, _⟩ := hw.holding.mem key ent hent
    exact ⟨path, hpath⟩
  refine (Kept.clearMem hw hk ⟨fun key ent hpeek => ?_, hw.holding.disk⟩).listing hkeys
  obtain ⟨path, hkey, hle⟩ := hw.holding.mem key ent hpeek
  refine ⟨path, hkey, ?_⟩
  have hmem : key ∈ w.cache.mem.keys := MemCache.mem_keys.2 (by rw [hpeek]; exact Option.some_ne_none ent)
  rwa [later_same]
  simp [World.absent, hkey, hmem]

theorem Kept.diskKeys (hw : Cleared site w) (hk : Knows w k (w.seen i)) :
    Kept site i w (w.diskKeys i).2 { k with
      disk := fun path => k.disk path || World.absent w.cache.diskKeys path, listed := w.cache.diskKeys ++ k.listed } := by
  have hkeys : ∀ key ∈ w.cache.diskKeys, ∃ path, cacheKey path = some key := by
    intro key hkey
    cases hdisk : w.cache.disk with
    | none =>
      simp only [LayeredCache.diskKeys, hdisk] at hkey
      cases hkey
    | some t =>
      obtain ⟨s, hholds, hentries, _⟩ := hw.holding.disk t hdisk
      exact ((hentries.mem_diskKeys hholds hdisk).1 hkey).1
  refine (Kept.clearDisk hw hk ⟨hw.holding.mem, fun t hdisk => ?_⟩).listing hkeys
  obtain ⟨s, hholds, hentries, hle⟩ := hw.holding.disk t hdisk
  refine ⟨s, hholds, hentries, fun path key ent hkey hs => ?_⟩
  have hmem : key ∈ w.cache.diskKeys :=
    (hentries.mem_diskKeys hholds hdisk).2 ⟨⟨path, hkey⟩, by rw [hs]; exact Option.some_ne_none _⟩
  rw [later_same]
  · exact hle path key ent hkey hs
  · simp [World.absent, hkey, hmem]

theorem Kept.memDelete (hw : Cleared site w) (hk : Knows w k (w.seen i)) (key : GoString) :
    Kept site i w (w.memDelete i key) { k with mem := fun path => k.mem path || World.hasKey key path } :=
  .clearMem hw hk (hw.holding.deleteMem fun _ hne => later_same (hasKey_false hne))

theorem Kept.diskDelete (hw : Cleared site w) (hk : Knows w k (w.seen i)) (hkey : ∃ path, cacheKey path = some key) :
    Kept site i w (w.diskDelete i key).2
      { k with disk := fun path => k.disk path || ((w.diskDelete i key).1 && World.hasKey key path) } := by
  obtain ⟨path, hkey⟩ := hkey
  obtain ⟨hsame, hgone⟩ := hw.holding.deleteDisk hkey
  have hcases : w.diskDelete i key = if (w.cache.deleteDisk key).1 = [] then
      (true, { w with cache := (w.cache.deleteDisk key).2, clearedDisk := w.later i w.clearedDisk (World.hasKey key) })
      else (false, { w with cache := (w.cache.deleteDisk key).2 }) := rfl
  rw [hcases]
  split
  · rename_i herr
    exact .clearDisk hw hk (hgone herr _ fun _ hne => later_same (hasKey_false hne))
  · have hdisk : (fun path => k.disk path || (false && World.hasKey key path)) = k.disk := by
      funext path
      simp
    simp only [hdisk]
    exact .cache hw hsame hk

/-! ### Tombstones -/

theorem has_add (t : EmbedTombstone) (p path : Path) : (t.add p).has path = (t.has path || Known.covers p path) := by
  unfold EmbedTombstone.add Known.covers EmbedTombstone.add
  split
  · split
    · rename_i hin
      -- the pattern is there already
      have hthere : p ∈ t.patterns := by simpa using hin
      cases hm : (matchPath p path).isSome with
      | false => simp [EmbedTombstone.has, hm]
      | true =>
        have hany : t.patterns.any (fun p => (matchPath p path).isSome) := List.any_eq_true.2 ⟨p, hthere, hm⟩
        simp [EmbedTombstone.has, hm, hany]
    · simp [EmbedTombstone.has, Bool.or_assoc]
  · simp [EmbedTombstone.has, Bool.or_assoc, Bool.or_comm]

theorem Kept.bury (hw : Cleared site w) (hk : Knows w k (w.seen i)) (p : Path) :
    Kept site i w { w with dead := w.dead.add p } { k with buried := fun path => k.buried path || Known.covers p path } := by
  have hdead : ∀ path, w.dead.has path → (w.dead.add p).has path := fun path h => by rw [has_add, h, Bool.true_or]
  refine ⟨⟨hw.holding, ⟨hw.settled.called, hw.settled.mem, hw.settled.disk, fun path hp hpos =>
      hdead path (hw.settled.dead path hp hpos)⟩⟩,
    ⟨fun _ => le_rfl, fun _ => le_rfl, fun _ => le_rfl, fun _ => le_rfl, hdead⟩,
    ⟨hk.began, hk.got, hk.live, hk.called, hk.affects, hk.mem, hk.disk, fun path hb => ?_, hk.listed, hk.served⟩,
    fun _ _ => rfl⟩
  change (w.dead.add p).has path
  rw [has_add]
  cases Bool.or_eq_true .. ▸ hb with
  | inl hold => rw [hk.buried path hold, Bool.true_or]
  | inr hnew => rw [hnew, Bool.or_true]

theorem Kept.returned (hw : Cleared site w) (hk : Knows w k (w.seen i))
    (hall : ∀ path, (cacheKey path).isSome → k.affects path → k.mem path ∧ k.disk path ∧ k.buried path) :
    Kept site i w (w.settle i) k := by
  have hsettled : ∀ path, (w.settle i).settled path = max (w.settled path) ((w.seen i).called path) := fun path => by
    simp [World.settle, World.later]
  have hmore : ∀ path, w.settled path ≤ (w.settle i).settled path := fun path => by
    rw [hsettled]
    exact le_max_left _ _
  -- what the invalidation does not affect has no number
  have hbound : ∀ path (n : Nat), w.settled path ≤ n → (k.affects path → (w.seen i).called path ≤ n) →
      (w.settle i).settled path ≤ n := by
    intro path n hold hnew
    rw [hsettled]
    refine max_le hold ?_
    cases haff : k.affects path with
    | true => exact hnew haff
    | false =>
      rw [hk.affects path haff]
      exact Nat.zero_le n
  refine ⟨⟨hw.holding, ⟨fun path => ?_, fun path hp => ?_, fun path hp => ?_, fun path hp hpos => ?_⟩⟩,
    ⟨fun _ => le_rfl, hmore, fun _ => le_rfl, fun _ => le_rfl, fun _ h => h⟩,
    ⟨hk.began.trans (hmore _), hk.got, hk.live, hk.called, hk.affects, hk.mem, hk.disk, hk.buried, hk.listed, hk.served⟩,
    fun _ _ => rfl⟩
  · exact hbound path _ (hw.settled.called path) fun _ => hk.called path
  · exact hbound path _ (hw.settled.mem path hp) fun haff => hk.mem path (hall path hp haff).1
  · exact hbound path _ (hw.settled.disk path hp) fun haff => hk.disk path (hall path hp haff).2.1
  · by_contra hdead
    have hzero : (w.settle i).settled path ≤ 0 := by
      refine hbound path 0 (Nat.not_lt.1 fun h => hdead (hw.settled.dead path hp h)) fun haff => ?_
      exact absurd (hk.buried path (hall path hp haff).2.2) hdead
    exact absurd hpos (Nat.not_lt.2 hzero)

/-! ### All calls -/

theorem Knows.reads_mem {s : Seen} (hw : Cleared site w) (hk : Knows w k s) (hkey : cacheKey k.path = some key)
    {r : Option Entry} (hr : ∀ ent, r = some ent → w.clearedMem k.path ≤ ent.html.loaded) : Knows w (k.reads r) s :=
  hk.reads fun ent hent => hk.began.trans ((hw.settled.mem k.path (hkey ▸ rfl)).trans (hr ent hent))

theorem Knows.reads_disk {s : Seen} (hw : Cleared site w) (hk : Knows w k s) (hkey : cacheKey k.path = some key)
    {r : Option Entry} (hr : ∀ ent, r = some ent → w.clearedDisk k.path ≤ ent.html.loaded) : Knows w (k.reads r) s :=
  hk.reads fun ent hent => hk.began.trans ((hw.settled.disk k.path (hkey ▸ rfl)).trans (hr ent hent))

/-- What a call changes that is not read here. -/
theorem Kept.flights (hw : Cleared site w) (hk : Knows w k (w.seen i)) (flights : Nat → Option Flight)
    (inFlight : Path → Option Nat) (nextFlight : Nat) : Kept site i w { w with flights, inFlight, nextFlight } k :=
  ⟨⟨hw.holding, ⟨hw.settled.called, hw.settled.mem, hw.settled.disk, hw.settled.dead⟩⟩,
    ⟨fun _ => le_rfl, fun _ => le_rfl, fun _ => le_rfl, fun _ => le_rfl, fun _ h => h⟩,
    ⟨hk.began, hk.got, hk.live, hk.called, hk.affects, hk.mem, hk.disk, hk.buried, hk.listed, hk.served⟩, fun _ _ => rfl⟩

/-- Every call keeps what has been cleared, and tells its goroutine what the monitor says. -/
theorem Step.kept {β : Type} {o : Op β} {r : β} (h : Step site i o w r w') (hallows : k.Allows o) (hkeeps : KeepsOld i o w)
    (hw : Cleared site w) (hk : Knows w k (w.seen i)) : Kept site i w w' (k.next site.affects o r) := by
  cases o with
  | requested path =>
    cases h
    exact .requested hw hk path
  | embedDead path =>
    obtain ⟨rfl, rfl⟩ := h
    cases hallows
    exact .embedDead hw hk
  | poisoned path =>
    cases h
    exact .read hw hk
  | poison path =>
    cases h
    exact .read hw hk
  | memGet key =>
    obtain ⟨now, rfl, rfl⟩ := h
    obtain ⟨hread, hholding⟩ := hw.holding.fromMem now hallows
    exact .cache hw hholding (hk.reads_mem hw hallows hread)
  | diskGet key =>
    obtain ⟨now, rfl, rfl⟩ := h
    obtain ⟨hread, hsame⟩ := hw.holding.fromDisk now hallows
    rw [hsame]
    exact .cache hw hw.holding (hk.reads_disk hw hallows hread)
  | memPut key ent =>
    cases h
    exact .cache hw (hw.holding.keep hallows (hkeeps k.path hallows)) hk
  | diskPut key ent =>
    cases h
    exact .cache hw (hw.holding.putDisk hallows (hkeeps k.path hallows)) hk
  | memPeek key =>
    obtain ⟨rfl, rfl⟩ := h
    exact .read hw (hk.reads_mem hw hallows fun ent hent => hw.holding.mem_path hallows hent)
  | diskPeek key =>
    obtain ⟨rfl, rfl⟩ := h
    exact .read hw (hk.reads_disk hw hallows fun ent hent => hw.holding.diskPeek hallows hent)
  | now =>
    cases h
    exact .read hw hk
  | join path =>
    obtain ⟨-, rfl⟩ := h
    unfold World.join
    split
    · exact .read hw hk
    · exact .flights hw hk ..
  | load path rt params =>
    obtain ⟨hload, rfl⟩ := h
    cases hallows
    refine .read hw (hk.reads fun ent hent => ?_)
    -- the data are as late as the last invalidation that has been called
    have hok : r = .ok ent := by
      cases r with
      | error e => cases hent
      | ok ent' => exact congrArg Except.ok (Option.some.inj hent)
    rw [(hload ent hok).1]
    exact hk.began.trans (hw.settled.called k.path)
  | land id r =>
    cases h
    exact .flights hw hk ..
  | wait id =>
    obtain ⟨⟨f, hflight, hresult⟩, rfl⟩ := h
    refine .read hw (hk.reads fun ent hent => ?_)
    cases r with
    | error e => cases hent
    | ok loaded => exact Option.some.inj hent ▸ hkeeps f loaded.1 loaded.2 hflight hresult
  | serve path page =>
    cases h
    obtain ⟨rfl, hgot | ⟨hlive, hcanon⟩⟩ := hallows
    · exact .serve hw hk (hk.got _ hgot)
    · refine .serve hw hk ?_
      rw [hk.live hlive hcanon]
      exact Nat.zero_le _
  | called pattern params =>
    cases h
    exact .called hw hk _
  | bury p =>
    cases h
    exact .bury hw hk p
  | memDelete key =>
    cases h
    exact .memDelete hw hk key
  | diskDelete key =>
    obtain ⟨rfl, rfl⟩ := h
    exact .diskDelete hw hk (hallows.elim (hk.listed key) id)
  | memKeys =>
    obtain ⟨rfl, rfl⟩ := h
    exact .memKeys hw hk
  | diskKeys =>
    obtain ⟨rfl, rfl⟩ := h
    exact .diskKeys hw hk
  | returned =>
    cases h
    exact .returned hw hk hallows

end cleared

end Ploykit.Renderx.Pages

import Mathlib.Data.Set.Card
import Ploykit.Renderx.Cache
import Ploykit.Storagex.LocalMap

/-!
# The layered cache as a map

The cache stands for a map of paths to entries. On disk lie the entries whose key the store
takes, in memory some of them and those whose key it refuses.
-/

namespace Ploykit.Renderx

open Lib GoString
open Storagex (validKey)

/-! ## Keys on disk -/

section diskKeys

variable {path : Path} {key key' : GoString}

def dot : UInt8 := '.'.toUInt8

theorem slash_notMem_diskEntrySuffix : slash ∉ diskEntrySuffix := by decide

/-- The elements of a key: only the last has a dot. -/
theorem elements_diskKey (h : cacheKey path = some key) :
    ∃ l e, elements (diskKey key) = l ++ [e ++ diskEntrySuffix] ∧ ∀ seg ∈ l, dot ∉ seg := by
  obtain ⟨l, e, hkey, hdisk⟩ := elements_append (s := key) slash_notMem_diskEntrySuffix
  refine ⟨l, e, hdisk, fun seg hseg => ?_⟩
  cases cacheKey_eq_some.1 h with
  | inl hroot =>
    rw [hroot.2, indexKey_elements] at hkey
    have hl : l = [] := by
      have hlen := congrArg List.length hkey
      simpa using hlen
    rw [hl] at hseg
    cases hseg
  | inr hpage => exact dot_notMem (hpage.2 seg (by rw [hkey]; exact List.mem_append_left _ hseg))

theorem dot_mem_suffix {e : GoString} : dot ∈ e ++ diskEntrySuffix := List.mem_append_right e (by decide)

theorem plain_of_all {l : GoString} (h : (l.all fun c => decide (Plain c)) = true) : ∀ c ∈ l, Plain c :=
  fun c hc => of_decide_eq_true (List.all_eq_true.1 h c hc)

theorem plain_diskKey (h : cacheKey path = some key) : ∀ c ∈ diskKey key, Plain c := by
  have hsuffix : ∀ c ∈ diskEntrySuffix, Plain c := plain_of_all (by decide)
  refine List.forall_mem_append.2 ⟨fun c hc => ?_, hsuffix⟩
  cases cacheKey_eq_some.1 h with
  | inl hroot =>
    have hindex : ∀ c ∈ indexKey, Plain c := plain_of_all (by decide)
    exact hindex c (hroot.2 ▸ hc)
  | inr hpage =>
    rcases eq_or_ne c slash with hslash | hne
    · exact .inl hslash
    · -- any other byte is one of a segment
      have hseg : ∃ seg ∈ elements key, c ∈ seg := by
        have hjoin : c ∈ join (elements key) := by rwa [join_elements]
        exact (mem_join hjoin).resolve_left hne
      obtain ⟨seg, hseg, hc⟩ := hseg
      refine .inr ?_
      rcases byte_of_validParamValue (hpage.2 seg hseg) hc with halnum | rfl | rfl
      · simp [shouldEscape, halnum]
      · decide
      · decide

theorem last_of_suffix {e suf suf' : GoString} {c c' : UInt8} (h : suf <:+ e ++ suf') (hc : suf.getLast? = some c)
    (hc' : suf'.getLast? = some c') : c = c' := by
  obtain ⟨t, ht⟩ := h
  have hlast := congrArg List.getLast? ht
  rw [List.getLast?_append, List.getLast?_append, hc, hc', Option.some_or, Option.some_or] at hlast
  exact Option.some.inj hlast

theorem last_metaSuffix : Storagex.metaSuffix.getLast? = some 'n'.toUInt8 := by decide

theorem last_diskEntrySuffix : diskEntrySuffix.getLast? = some 'y'.toUInt8 := by decide

theorem not_meta_suffix {e : GoString} : ¬ Storagex.metaSuffix <:+ e ++ diskEntrySuffix := fun h =>
  absurd (last_of_suffix h last_metaSuffix last_diskEntrySuffix) (by decide)

theorem not_entry_suffix {e : GoString} : ¬ diskEntrySuffix <:+ e ++ Storagex.metaSuffix := fun h =>
  absurd (last_of_suffix h last_diskEntrySuffix last_metaSuffix) (by decide)

/-- The keys on disk of the paths. -/
def DiskKeys (P : Set Path) : Set Storagex.Key :=
  {k | validKey k ∧ ∃ path ∈ P, ∃ key, cacheKey path = some key ∧ k = diskKey key}

theorem diskKeys_noDirs (P : Set Path) : Storagex.NoDirs (DiskKeys P) := by
  rintro k ⟨_, path, _, key, h, rfl⟩ k' ⟨_, path', _, key', h', rfl⟩ hpre
  obtain ⟨l, e, hkey, hl⟩ := elements_diskKey h
  obtain ⟨l', e', hkey', hl'⟩ := elements_diskKey h'
  refine elements_inj (List.IsPrefix.eq_of_length hpre ?_)
  -- the last element of the one has a dot, which no element of the other has but the last
  obtain ⟨rest, hrest⟩ := hpre
  rcases List.eq_nil_or_concat' rest with rfl | ⟨mid, last, rfl⟩
  · rw [← hrest, List.append_nil]
  · rw [hkey, hkey', ← List.append_assoc] at hrest
    have hmem : e' ++ diskEntrySuffix ∈ l := by
      rw [← (List.append_inj_left' hrest rfl)]
      simp
    exact absurd dot_mem_suffix (hl _ hmem)

theorem diskKeys_apart (P : Set Path) : Storagex.Apart (DiskKeys P) where
  plain := by
    rintro k ⟨_, path, _, key, h, rfl⟩
    exact plain_diskKey h
  noMeta := by
    rintro k ⟨_, path, _, key, h, rfl⟩
    exact not_meta_suffix
  notBelow := by
    rintro k ⟨_, path, _, key, h, rfl⟩ k' ⟨_, path', _, key', h', rfl⟩ hpre
    obtain ⟨e, _, hmeta⟩ := Storagex.paths (diskKey key)
    obtain ⟨l', e', hkey', hl'⟩ := elements_diskKey h'
    have hmem : e ++ Storagex.metaSuffix ∈ l' ++ [e' ++ diskEntrySuffix] := by
      rw [← hkey']
      exact hpre.subset (by rw [hmeta]; simp)
    cases List.mem_append.1 hmem with
    | inl hmem =>
      have hdot : dot ∈ e ++ Storagex.metaSuffix := List.mem_append_right e (by decide)
      exact hl' _ hmem hdot
    | inr hmem => exact not_meta_suffix ⟨e, List.mem_singleton.1 hmem⟩

end diskKeys

/-! ## The map -/

abbrev Pages (H : Type) := Path → Option (CacheEntry H)

inductive CacheOp (H : Type) where
  | put (now : Int) (path : Path) (ent : CacheEntry H)
  | get (now : Int) (path : Path)
  | getStale (path : Path)
  | delete (paths : List Path)
  | evictMatching (matching : GoString → Bool)
  | keys

inductive CacheAnswer (H : Type) where
  | put (r : Except CacheErr Unit)
  | got (r : Option (CacheEntry H))
  | deleted (errs : List CacheErr)
  | evicted (n : Nat) (errs : List CacheErr)
  | keys (l : List GoString)

section ops

variable {H B : Type} (D : Disk H B)

def CacheOp.exec : CacheOp H → LayeredCache H B → CacheAnswer H × LayeredCache H B
  | .put now path ent, c => (c.put D now path ent).map .put id
  | .get now path, c => (c.get D now path).map .got id
  | .getStale path, c => (.got (c.getStale D path), c)
  | .delete paths, c => (LayeredCache.delete paths c).map .deleted id
  | .evictMatching matching, c =>
    let (n, errs, c) := c.evictMatching matching
    (.evicted n errs, c)
  | .keys, c => (.keys c.keys, c)

/-- The call is about canonical paths among these. -/
def CacheOp.On (P : Set Path) : CacheOp H → Prop
  | .put _ path _ => path ∈ P
  | .get _ path => path ∈ P
  | .getStale path => path ∈ P
  | .delete paths => ∀ path ∈ paths, path ∈ P
  | .evictMatching _ => True
  | .keys => True

/-- An entry of another build is not stored. -/
def CacheOp.apply (buildID : String) (M : Pages H) : CacheOp H → Pages H
  | .put now path ent =>
    if (ent.fill buildID now).buildID ≠ buildID then M else Function.update M path (some (ent.fill buildID now))
  | .get _ _ => M
  | .getStale _ => M
  | .delete paths => fun path => if path ∈ paths then none else M path
  | .evictMatching matching => fun path => if (cacheKey path).any matching then none else M path
  | .keys => M

/-- What is read of the cache is what the map says. -/
def CacheOp.Right (ttl : Int) (M : Pages H) : CacheOp H → CacheAnswer H → Prop
  | .get now path, .got r => r = (M path).filter fun ent => !ent.expired ttl now
  | .getStale path, .got r => r = M path
  | .keys, .keys l =>
    (∀ key, key ∈ l ↔ ∃ path, cacheKey path = some key ∧ M path ≠ none) ∧ l.Nodup ∧ l.Pairwise (· ≤ ·)
  | .put _ _ _, .put _ => True
  | .delete _, .deleted _ => True
  | .evictMatching _, .evicted _ _ => True
  | _, _ => False

def runCache (c : LayeredCache H B) (ops : List (CacheOp H)) : LayeredCache H B := ops.foldl (fun c op => (op.exec D c).2) c

def pages (buildID : String) (ops : List (CacheOp H)) : Pages H := ops.foldl (CacheOp.apply buildID) fun _ => none

/-- After any calls on the paths what is read of the cache is what the map says. -/
def IsPageMap (c : LayeredCache H B) (P : Set Path) : Prop :=
  ∀ ops : List (CacheOp H), (∀ op ∈ ops, op.On P) → ∀ op : CacheOp H, op.On P →
    op.Right c.ttl (pages c.buildID ops) (op.exec D (runCache D c ops)).1

end ops

/-! ## What lies on disk -/

section onDisk

variable {H B : Type} {D : Disk H B} {M : Pages H} {path : Path} {key : GoString}

def entryOnDisk (D : Disk H B) (ent : CacheEntry H) : Storagex.Entry B := ⟨"application/json", D.encode ent⟩

/-- The entries whose keys the store takes. -/
def onDisk (D : Disk H B) (M : Pages H) : Storagex.Stored B := fun k =>
  let key := k.trimSuffix diskEntrySuffix
  if validKey k ∧ k = diskKey key ∧ cacheKey (keyToPath key) = some key then (M (keyToPath key)).map (entryOnDisk D) else none

theorem onDisk_diskKey (h : cacheKey path = some key) (hvalid : validKey (diskKey key)) :
    onDisk D M (diskKey key) = (M path).map (entryOnDisk D) := by
  have htrim : (diskKey key).trimSuffix diskEntrySuffix = key := trimSuffix_append key diskEntrySuffix
  simp only [onDisk, htrim, keyToPath_cacheKey h]
  exact if_pos ⟨hvalid, trivial, h⟩

theorem onDisk_eq_some {k : Storagex.Key} {e : Storagex.Entry B} (h : onDisk D M k = some e) :
    ∃ path key ent, cacheKey path = some key ∧ k = diskKey key ∧ validKey k ∧ M path = some ent ∧ e = entryOnDisk D ent := by
  rw [onDisk] at h
  split at h
  · rename_i hk
    obtain ⟨ent, hM, rfl⟩ := Option.map_eq_some_iff.1 h
    exact ⟨_, _, ent, hk.2.2, hk.2.1, hk.1, hM, rfl⟩
  · cases h

theorem onDisk_update (h : cacheKey path = some key) (v : Option (CacheEntry H)) {k : Storagex.Key} (hk : k ≠ diskKey key) :
    onDisk D (Function.update M path v) k = onDisk D M k := by
  simp only [onDisk]
  split
  · rename_i hcond
    have hne : keyToPath (k.trimSuffix diskEntrySuffix) ≠ path := by
      intro heq
      rw [heq, h] at hcond
      exact hk (hcond.2.1.trans (by rw [Option.some.inj hcond.2.2]))
    rw [Function.update_of_ne hne]
  · rfl

theorem onDisk_update_valid (h : cacheKey path = some key) (hvalid : validKey (diskKey key)) (v : Option (CacheEntry H)) :
    onDisk D (Function.update M path v) = Function.update (onDisk D M) (diskKey key) (v.map (entryOnDisk D)) := by
  funext k
  rcases eq_or_ne k (diskKey key) with rfl | hk
  · rw [onDisk_diskKey h hvalid, Function.update_self, Function.update_self]
  · rw [onDisk_update h v hk, Function.update_of_ne hk]

theorem onDisk_update_refused (h : cacheKey path = some key) (hvalid : ¬ validKey (diskKey key)) (v : Option (CacheEntry H)) :
    onDisk D (Function.update M path v) = onDisk D M := by
  funext k
  rcases eq_or_ne k (diskKey key) with rfl | hk
  · simp [onDisk, hvalid]
  · exact onDisk_update h v hk

end onDisk

/-! ## A store of entries -/

section entries

variable {H B : Type} {D : Disk H B} {P : Set Path} {s : Storagex.Stored B} {t : Storagex.Tree B} {path : Path} {key : GoString}

theorem diskKeys_valid (P : Set Path) : ∀ k ∈ DiskKeys P, validKey k := fun _ h => h.1

/-- Only entries are stored, under their keys. -/
def Entries (D : Disk H B) (s : Storagex.Stored B) : Prop :=
  ∀ k e, s k = some e → ∃ path key ent, cacheKey path = some key ∧ k = diskKey key ∧ validKey k ∧ e = entryOnDisk D ent

theorem encode_inj {ent ent' : CacheEntry H} (h : D.encode ent = D.encode ent') : ent = ent' := by
  rw [← Option.some_inj, ← D.decode_encode ent, h, D.decode_encode]

theorem entries_onDisk {M : Pages H} : Entries D (onDisk D M) := by
  intro k e h
  obtain ⟨path, key, ent, hkey, hk, hvalid, _, he⟩ := onDisk_eq_some h
  exact ⟨path, key, ent, hkey, hk, hvalid, he⟩

/-- What the store answers for an entry. -/
theorem Entries.open_entry (h : Entries D s) (hholds : Storagex.Holds D.toContents (DiskKeys P) s t) (hpath : path ∈ P)
    (hkey : cacheKey path = some key) :
    (∃ e, Storagex.openObject D.toContents (diskKey key) t = .error e ∧
        (validKey (diskKey key) → s (diskKey key) = none)) ∨
      ∃ ent o, Storagex.openObject D.toContents (diskKey key) t = .ok (.file (D.encode ent), o) ∧
        s (diskKey key) = some (entryOnDisk D ent) := by
  by_cases hvalid : validKey (diskKey key)
  · have hopen := hholds.open_eq (diskKeys_valid P) (diskKeys_noDirs P) (diskKeys_apart P)
      ⟨hvalid, path, hpath, key, hkey, rfl⟩
    cases hs : s (diskKey key) with
    | none =>
      rw [hs] at hopen
      exact .inl ⟨_, hopen, fun _ => rfl⟩
    | some e =>
      rw [hs] at hopen
      obtain ⟨_, _, ent, _, _, _, rfl⟩ := h _ e hs
      exact .inr ⟨ent, _, hopen, rfl⟩
  · exact .inl ⟨_, Storagex.open_refused D.toContents t hvalid, fun h => absurd h hvalid⟩

/-- The keys that the walk finds are those of the entries. -/
theorem Entries.mem_diskKeys (h : Entries D s) (hholds : Storagex.Holds D.toContents (DiskKeys P) s t)
    {c : LayeredCache H B} (hdisk : c.disk = some t) {k : GoString} :
    k ∈ c.diskKeys ↔ (∃ path, cacheKey path = some k) ∧ s (diskKey k) ≠ none := by
  simp only [LayeredCache.diskKeys, hdisk]
  rw [List.mem_filterMap]
  constructor
  · rintro ⟨⟨p, b⟩, hmem, hk⟩
    simp only at hk
    split at hk
    · rename_i hsuffix
      obtain ⟨k', e, hs, hfile⟩ := (hholds.file p b).1 (FileTree.mem_files.1 hmem)
      obtain ⟨path, key, ent, hkey, rfl, _, _⟩ := h k' e hs
      cases hfile with
      | inl hbody =>
        rw [hbody.1, join_elements, diskKey, trimSuffix_append] at hk
        cases hk
        exact ⟨⟨path, hkey⟩, by rw [hs]; exact Option.some_ne_none e⟩
      | inr hmeta =>
        rw [hmeta.1, Storagex.Key.metaPath, join_elements] at hsuffix
        exact absurd hsuffix not_entry_suffix
    · cases hk
  · rintro ⟨_, hs⟩
    obtain ⟨e, hs⟩ := Option.ne_none_iff_exists'.1 hs
    refine ⟨_, FileTree.mem_files.2 ((hholds.file _ _).2 ⟨diskKey k, e, hs, .inl ⟨rfl, rfl⟩⟩), ?_⟩
    simp only [join_elements, diskKey, trimSuffix_append]
    exact if_pos (List.suffix_append _ _)

end entries

/-! ## What the cache keeps -/

/-- The cache stands for the map. What the store refuses is in memory. -/
structure Keeps {H B : Type} (D : Disk H B) (c₀ : LayeredCache H B) (P : Set Path) (M : Pages H) (c : LayeredCache H B) : Prop where
  buildID : c.buildID = c₀.buildID
  ttl : c.ttl = c₀.ttl
  max : c.mem.max = c₀.mem.max
  onP : ∀ path, M path ≠ none → path ∈ P
  built : ∀ path ent, M path = some ent → ent.buildID = c₀.buildID
  mem : ∀ key ent, c.mem.peek key = some ent → cacheKey (keyToPath key) = some key ∧ M (keyToPath key) = some ent
  memOnly : ∀ path key, cacheKey path = some key → ¬ validKey (diskKey key) → c.mem.peek key = M path
  disk : ∃ t, c.disk = some t ∧ Storagex.Holds D.toContents (DiskKeys P) (onDisk D M) t

/-- The store takes the keys of all paths, or all paths fit into memory. -/
def Room {H B : Type} (c : LayeredCache H B) (P : Set Path) : Prop :=
  (∀ path ∈ P, ∀ key, cacheKey path = some key → validKey (diskKey key)) ∨ P.encard ≤ c.mem.max

section keeps

variable {H B : Type} {D : Disk H B} {c₀ c : LayeredCache H B} {P : Set Path} {M : Pages H} {path : Path} {key : GoString}

theorem Keeps.mem_path (h : Keeps D c₀ P M c) (hkey : cacheKey path = some key) {ent : CacheEntry H}
    (hpeek : c.mem.peek key = some ent) : M path = some ent := by
  have hM := (h.mem key ent hpeek).2
  rwa [keyToPath_cacheKey hkey] at hM

/-- Where all paths fit into memory there is room for one more of them. -/
theorem Keeps.fits (h : Keeps D c₀ P M c) (hpath : path ∈ P) (hkey : cacheKey path = some key)
    (hroom : P.encard ≤ c₀.mem.max) : (insert key c.mem.toLru.keys.toFinset).card ≤ c.mem.max := by
  have hpaths : ∀ k ∈ insert key c.mem.toLru.keys.toFinset, cacheKey (keyToPath k) = some k ∧ keyToPath k ∈ P := by
    intro k hk
    cases Finset.mem_insert.1 hk with
    | inl heq =>
      rw [heq, keyToPath_cacheKey hkey]
      exact ⟨hkey, hpath⟩
    | inr hmem =>
      have hpeek := Lru.mem_keys.1 (List.mem_toFinset.1 hmem)
      rw [MemCache.peek_toLru] at hpeek
      obtain ⟨ent, hent⟩ := Option.ne_none_iff_exists'.1 hpeek
      obtain ⟨hk, hM⟩ := h.mem k ent hent
      exact ⟨hk, h.onP _ (by rw [hM]; exact Option.some_ne_none ent)⟩
  have hinj : Set.InjOn keyToPath (insert key c.mem.toLru.keys.toFinset : Finset GoString) := by
    intro k hk k' hk' heq
    have hcache := (hpaths k hk).1
    rw [heq, (hpaths k' hk').1] at hcache
    exact (Option.some.inj hcache).symm
  have hsub : (((insert key c.mem.toLru.keys.toFinset).image keyToPath : Finset Path) : Set Path) ⊆ P := by
    intro p hp
    obtain ⟨k, hk, rfl⟩ := Finset.mem_image.1 hp
    exact (hpaths k hk).2
  have hcard := (Set.encard_le_encard hsub).trans hroom
  rw [Set.encard_coe_eq_coe_finsetCard, Finset.card_image_of_injOn hinj] at hcard
  rw [h.max]
  exact_mod_cast hcard

/-- An entry of one of the paths comes into memory. -/
theorem Keeps.mem_keep (h : Keeps D c₀ P M c) (hmax : 0 < c₀.mem.max) (hroom : Room c₀ P) (hpath : path ∈ P)
    (hkey : cacheKey path = some key) (ent : CacheEntry H) :
    (∀ k e, (c.mem.put key ent).peek k = some e →
        cacheKey (keyToPath k) = some k ∧ Function.update M path (some ent) (keyToPath k) = some e) ∧
      ∀ path' key', cacheKey path' = some key' → ¬ validKey (diskKey key') →
        (c.mem.put key ent).peek key' = Function.update M path (some ent) path' := by
  have hself : (c.mem.put key ent).peek key = some ent := MemCache.peek_put_self (by rw [h.max]; exact hmax) ent
  have hmem : ∀ k e, (c.mem.put key ent).peek k = some e →
      cacheKey (keyToPath k) = some k ∧ Function.update M path (some ent) (keyToPath k) = some e := by
    intro k e hpeek
    rcases MemCache.peek_of_put hpeek with ⟨rfl, rfl⟩ | ⟨hne, hold⟩
    · rw [keyToPath_cacheKey hkey, Function.update_self]
      exact ⟨hkey, rfl⟩
    · obtain ⟨hk, hM⟩ := h.mem k e hold
      have hother : keyToPath k ≠ path := by
        intro heq
        rw [heq, hkey] at hk
        exact hne (Option.some.inj hk).symm
      rw [Function.update_of_ne hother]
      exact ⟨hk, hM⟩
  refine ⟨hmem, fun path' key' hkey' hvalid => ?_⟩
  rcases eq_or_ne path' path with rfl | hne
  · rw [hkey] at hkey'
    cases hkey'
    rw [hself, Function.update_self]
  · rw [Function.update_of_ne hne, ← h.memOnly path' key' hkey' hvalid]
    have hkeys : key' ≠ key := by
      rintro rfl
      exact hne (cacheKey_inj hkey' hkey)
    cases hroom with
    | inl hall =>
      -- the path is none of these, and nothing of it is in memory before or after
      have hnone : ∀ m : Option (CacheEntry H), (∀ e, m = some e → M path' = some e) → m = none := by
        intro m hm
        refine Option.eq_none_iff_forall_ne_some.2 fun e he => hvalid (hall path' (h.onP path' ?_) key' hkey')
        rw [hm e he]
        exact Option.some_ne_none e
      have hbefore : c.mem.peek key' = none := hnone _ fun e he => h.mem_path hkey' he
      have hafter : (c.mem.put key ent).peek key' = none := by
        refine hnone _ fun e he => ?_
        have hM := (hmem key' e he).2
        rwa [keyToPath_cacheKey hkey', Function.update_of_ne hne] at hM
      rw [hbefore, hafter]
    | inr hfits => rw [MemCache.peek_put_fits (h.fits hpath hkey hfits), if_neg hkeys]

/-! ## Each call -/

/-- An entry that is already stored comes into memory. -/
theorem Keeps.keep (h : Keeps D c₀ P M c) (hmax : 0 < c₀.mem.max) (hroom : Room c₀ P) (hpath : path ∈ P)
    (hkey : cacheKey path = some key) {ent : CacheEntry H} (hM : M path = some ent) : Keeps D c₀ P M (c.keep key ent) := by
  obtain ⟨hmem, hmemOnly⟩ := h.mem_keep hmax hroom hpath hkey ent
  have hsame : Function.update M path (some ent) = M := by rw [← hM, Function.update_eq_self]
  rw [hsame] at hmem hmemOnly
  exact { h with max := (MemCache.max_put ent).trans h.max, mem := hmem, memOnly := hmemOnly }

/-- The entry of the path on disk, in memory for it alone. -/
theorem Keeps.deleteKey (h : Keeps D c₀ P M c) (hpath : path ∈ P) (hkey : cacheKey path = some key) :
    Keeps D c₀ P (Function.update M path none) ((c.deleteMem key).deleteDisk key).2 := by
  obtain ⟨t, hdisk, hholds⟩ := h.disk
  have hdelete : ∃ t', ((c.deleteMem key).deleteDisk key).2 = { c with mem := c.mem.delete key, disk := some t' } ∧
      Storagex.Holds D.toContents (DiskKeys P) (onDisk D (Function.update M path none)) t' := by
    have hsome : (c.deleteMem key).disk = some t := hdisk
    by_cases hvalid : validKey (diskKey key)
    · obtain ⟨t', hdel, hholds'⟩ := hholds.delete_eq (diskKeys_valid P) (diskKeys_noDirs P) (diskKeys_apart P)
        ⟨hvalid, path, hpath, key, hkey, rfl⟩
      refine ⟨t', ?_, by rwa [onDisk_update_valid hkey hvalid]⟩
      simp only [LayeredCache.deleteDisk, hsome, hdel]
      rfl
    · refine ⟨t, ?_, by rwa [onDisk_update_refused hkey hvalid]⟩
      simp only [LayeredCache.deleteDisk, hsome, Storagex.delete_refused t hvalid]
      rfl
  obtain ⟨t', hc, hholds'⟩ := hdelete
  rw [hc]
  refine ⟨h.buildID, h.ttl, MemCache.max_delete.trans h.max, fun p hp => ?_, fun p ent hp => ?_, fun k ent hpeek => ?_,
    fun p k hk hvalid => ?_, t', rfl, hholds'⟩
  · rcases eq_or_ne p path with rfl | hne
    · exact hpath
    · exact h.onP p (by rwa [Function.update_of_ne hne] at hp)
  · rcases eq_or_ne p path with rfl | hne
    · rw [Function.update_self] at hp
      cases hp
    · exact h.built p ent (by rwa [Function.update_of_ne hne] at hp)
  · rw [MemCache.peek_delete] at hpeek
    split at hpeek
    · cases hpeek
    · rename_i hne
      obtain ⟨hcache, hM⟩ := h.mem k ent hpeek
      have hother : keyToPath k ≠ path := by
        intro heq
        rw [heq, hkey] at hcache
        exact hne (Option.some.inj hcache).symm
      rw [Function.update_of_ne hother]
      exact ⟨hcache, hM⟩
  · rw [MemCache.peek_delete]
    rcases eq_or_ne p path with rfl | hne
    · rw [hkey] at hk
      rw [Function.update_self, if_pos (Option.some.inj hk).symm]
    · rw [Function.update_of_ne hne, if_neg, h.memOnly p k hk hvalid]
      rintro rfl
      exact hne (cacheKey_inj hk hkey)

/-- The call reads as the map says and leaves a cache for the map after it. -/
def CacheSteps (D : Disk H B) (c₀ : LayeredCache H B) (P : Set Path) (M : Pages H) (c : LayeredCache H B) (op : CacheOp H) :
    Prop :=
  op.Right c₀.ttl M (op.exec D c).1 ∧ Keeps D c₀ P (op.apply c₀.buildID M) (op.exec D c).2

theorem Keeps.put (h : Keeps D c₀ P M c) (hmax : 0 < c₀.mem.max) (hroom : Room c₀ P) (hpath : path ∈ P)
    (hkey : cacheKey path = some key) (now : Int) (ent : CacheEntry H) : CacheSteps D c₀ P M c (.put now path ent) := by
  refine ⟨trivial, ?_⟩
  change Keeps D c₀ P _ (LayeredCache.put D now path ent c).2
  rw [LayeredCache.put, hkey, CacheOp.apply, h.buildID]
  simp only
  split
  · exact h
  · rename_i hbuild
    rw [ne_eq, not_not] at hbuild
    obtain ⟨t, hdisk, hholds⟩ := h.disk
    obtain ⟨hmem, hmemOnly⟩ := h.mem_keep hmax hroom hpath hkey (ent.fill c₀.buildID now)
    have hput : ∃ t', ((c.keep key (ent.fill c₀.buildID now)).putDisk D key (ent.fill c₀.buildID now)).2 =
        { c with mem := c.mem.put key (ent.fill c₀.buildID now), disk := some t' } ∧
        Storagex.Holds D.toContents (DiskKeys P)
          (onDisk D (Function.update M path (some (ent.fill c₀.buildID now)))) t' := by
      have hsome : (c.keep key (ent.fill c₀.buildID now)).disk = some t := hdisk
      by_cases hvalid : validKey (diskKey key)
      · obtain ⟨t', hput, hholds'⟩ := hholds.put_eq (diskKeys_valid P) (diskKeys_noDirs P) (diskKeys_apart P)
          ⟨hvalid, path, hpath, key, hkey, rfl⟩ "application/json" (D.encode (ent.fill c₀.buildID now))
        refine ⟨t', ?_, by rw [onDisk_update_valid hkey hvalid]; exact hholds'⟩
        simp only [LayeredCache.putDisk, hsome, hput]
        rfl
      · refine ⟨t, ?_, by rwa [onDisk_update_refused hkey hvalid]⟩
        simp only [LayeredCache.putDisk, hsome, Storagex.put_refused D.toContents t hvalid]
        rfl
    obtain ⟨t', hc, hholds'⟩ := hput
    rw [hc]
    refine ⟨h.buildID, h.ttl, (MemCache.max_put _).trans h.max, fun p hp => ?_, fun p e hp => ?_, hmem, hmemOnly,
      t', rfl, hholds'⟩
    · rcases eq_or_ne p path with rfl | hne
      · exact hpath
      · exact h.onP p (by rwa [Function.update_of_ne hne] at hp)
    · rcases eq_or_ne p path with rfl | hne
      · rw [Function.update_self] at hp
        rw [← Option.some.inj hp]
        exact hbuild
      · exact h.built p e (by rwa [Function.update_of_ne hne] at hp)

/-- What the store answers for the entry of a path. -/
theorem Keeps.open_disk (h : Keeps D c₀ P M c) (hpath : path ∈ P) (hkey : cacheKey path = some key) :
    ∃ t, c.disk = some t ∧
      ((∃ e, Storagex.openObject D.toContents (diskKey key) t = .error e ∧ (validKey (diskKey key) → M path = none)) ∨
        ∃ ent o, Storagex.openObject D.toContents (diskKey key) t = .ok (.file (D.encode ent), o) ∧ M path = some ent) := by
  obtain ⟨t, hdisk, hholds⟩ := h.disk
  refine ⟨t, hdisk, (entries_onDisk.open_entry hholds hpath hkey).imp ?_ ?_⟩
  · rintro ⟨e, hopen, hnone⟩
    refine ⟨e, hopen, fun hvalid => ?_⟩
    have hM := hnone hvalid
    rwa [onDisk_diskKey hkey hvalid, Option.map_eq_none_iff] at hM
  · rintro ⟨ent, o, hopen, hs⟩
    obtain ⟨path', key', ent', hkey', hk, hvalid, hM, he⟩ := onDisk_eq_some hs
    have hkeys : key = key' := List.append_cancel_right hk
    rw [← hkeys] at hkey'
    refine ⟨ent', o, ?_, by rw [cacheKey_inj hkey hkey', hM]⟩
    rw [hopen]
    exact congrArg (fun b => Except.ok (FileNode.file b, o)) (congrArg Storagex.Entry.body he)

theorem fromMem_eq (now : Int) (key : GoString) (c : LayeredCache H B) :
    c.fromMem now key =
      ((c.mem.peek key).filter fun ent => !c.expired now ent, { c with mem := (c.mem.get key).2 }) := by
  rw [← MemCache.get_fst]
  rfl

/-- What is in memory, if it is not too old. -/
theorem Keeps.fromMem (h : Keeps D c₀ P M c) (now : Int) (key : GoString) :
    ∃ c', c.fromMem now key = ((c.mem.peek key).filter fun ent => !ent.expired c₀.ttl now, c') ∧ Keeps D c₀ P M c' := by
  refine ⟨{ c with mem := (c.mem.get key).2 }, ?_, ?_⟩
  · rw [← h.ttl]
    exact fromMem_eq now key c
  · exact { h with
      max := MemCache.max_get.trans h.max
      mem := fun k ent hpeek => h.mem k ent (MemCache.peek_get.symm.trans hpeek)
      memOnly := fun p k hk hvalid => MemCache.peek_get.trans (h.memOnly p k hk hvalid) }

theorem Keeps.fromDisk (h : Keeps D c₀ P M c) (hpath : path ∈ P) (hkey : cacheKey path = some key) (now : Int) :
    ∃ r, c.fromDisk D now key = (r, c) ∧ (∀ ent, r = some ent → M path = some ent) ∧
      (validKey (diskKey key) → r = (M path).filter fun ent => !ent.expired c₀.ttl now) ∧
      r = r.filter fun ent => !ent.expired c₀.ttl now := by
  obtain ⟨t, hdisk, hopen⟩ := h.open_disk hpath hkey
  simp only [LayeredCache.fromDisk, hdisk]
  rcases hopen with ⟨e, hopen, hnone⟩ | ⟨ent, o, hopen, hM⟩
  · simp only [hopen]
    exact ⟨none, rfl, by simp, fun hvalid => by rw [hnone hvalid]; rfl, rfl⟩
  · simp only [hopen, LayeredCache.decodeNode, D.decode_encode]
    have hexpired : c.expired now ent = ent.expired c₀.ttl now := by rw [LayeredCache.expired, h.ttl]
    have hbuilt : ¬ ent.buildID ≠ c.buildID := not_not.2 ((h.built path ent hM).trans h.buildID.symm)
    refine ⟨_, rfl, ?_⟩
    rw [hexpired, hM]
    cases hexp : ent.expired c₀.ttl now <;> simp [hbuilt, hexp, Option.filter_some]

theorem Keeps.get (h : Keeps D c₀ P M c) (hmax : 0 < c₀.mem.max) (hroom : Room c₀ P) (hpath : path ∈ P)
    (hkey : cacheKey path = some key) (now : Int) : CacheSteps D c₀ P M c (.get now path) := by
  suffices hget : ∃ c', c.get D now path = ((M path).filter fun ent => !ent.expired c₀.ttl now, c') ∧ Keeps D c₀ P M c' by
    obtain ⟨c', hget, hkeeps⟩ := hget
    constructor
    · change (c.get D now path).1 = _
      rw [hget]
    · change Keeps D c₀ P M (c.get D now path).2
      rwa [hget]
  obtain ⟨c₁, hmem, hused⟩ := h.fromMem now key
  rw [LayeredCache.get, hkey]
  simp only [LayeredCache.getKey, hmem]
  cases hfound : (c.mem.peek key).filter fun ent => !ent.expired c₀.ttl now with
  | some ent =>
    have hpeek := (Option.filter_eq_some_iff.1 hfound).1
    rw [hpeek] at hfound
    rw [h.mem_path hkey hpeek, hfound]
    exact ⟨c₁, rfl, hused⟩
  | none =>
    obtain ⟨r, hdisk, hread, hvalid, hfresh⟩ := hused.fromDisk hpath hkey now
    -- what the store refuses is what is in memory
    have hr : r = (M path).filter fun ent => !ent.expired c₀.ttl now := by
      by_cases hv : validKey (diskKey key)
      · exact hvalid hv
      · rw [← h.memOnly path key hkey hv, hfound]
        refine Option.eq_none_iff_forall_ne_some.2 fun ent hent => ?_
        rw [← h.memOnly path key hkey hv] at hread
        rw [hread ent hent, ← hent, ← hfresh, hent] at hfound
        cases hfound
    simp only [hdisk]
    cases hcase : r with
    | none =>
      rw [hcase] at hr
      exact ⟨c₁, by rw [← hr], hused⟩
    | some ent =>
      rw [hcase] at hr
      exact ⟨_, by rw [← hr], hused.keep hmax hroom hpath hkey (hread ent hcase)⟩

theorem Keeps.getStale (h : Keeps D c₀ P M c) (hpath : path ∈ P) (hkey : cacheKey path = some key) :
    CacheSteps D c₀ P M c (.getStale path) := by
  refine ⟨?_, h⟩
  change c.getStale D path = M path
  rw [LayeredCache.getStale, hkey]
  simp only [h.buildID]
  cases hpeek : c.mem.peek key with
  | some ent =>
    have hM := h.mem_path hkey hpeek
    have hbuilt : Option.filter (fun ent : CacheEntry H => decide (ent.buildID = c₀.buildID)) (some ent) = some ent :=
      Option.filter_eq_some_iff.2 ⟨rfl, decide_eq_true (h.built path ent hM)⟩
    rw [hM, hbuilt]
  | none =>
    obtain ⟨t, hdisk, hopen⟩ := h.open_disk hpath hkey
    simp only [Option.filter_none, hdisk]
    rcases hopen with ⟨e, hopen, hnone⟩ | ⟨ent, o, hopen, hM⟩
    · rw [hopen]
      by_cases hvalid : validKey (diskKey key)
      · rw [hnone hvalid]
      · rw [← h.memOnly path key hkey hvalid, hpeek]
    · simp [hopen, LayeredCache.decodeNode, D.decode_encode, hM, h.built path ent hM]

theorem Keeps.mem_diskKeys (h : Keeps D c₀ P M c) {k : GoString} :
    k ∈ c.diskKeys ↔ ∃ path, cacheKey path = some k ∧ validKey (diskKey k) ∧ M path ≠ none := by
  obtain ⟨t, hdisk, hholds⟩ := h.disk
  rw [entries_onDisk.mem_diskKeys hholds hdisk, Option.ne_none_iff_exists']
  constructor
  · rintro ⟨⟨path, hkey⟩, e, hs⟩
    obtain ⟨path', key', ent, hkey', hk, hvalid, hM, _⟩ := onDisk_eq_some hs
    have hkeys : k = key' := List.append_cancel_right hk
    exact ⟨path', by rw [hkeys, hkey'], hvalid, by rw [hM]; exact Option.some_ne_none ent⟩
  · rintro ⟨path, hkey, hvalid, hM⟩
    obtain ⟨ent, hM⟩ := Option.ne_none_iff_exists'.1 hM
    exact ⟨⟨path, hkey⟩, _, by rw [onDisk_diskKey hkey hvalid, hM]; rfl⟩

theorem Keeps.mem_keys (h : Keeps D c₀ P M c) {k : GoString} :
    k ∈ c.keys ↔ ∃ path, cacheKey path = some k ∧ M path ≠ none := by
  rw [LayeredCache.keys, List.mem_mergeSort, List.mem_dedup, List.mem_append, MemCache.mem_keys, h.mem_diskKeys]
  constructor
  · rintro (hpeek | ⟨path, hkey, _, hM⟩)
    · obtain ⟨ent, hpeek⟩ := Option.ne_none_iff_exists'.1 hpeek
      obtain ⟨hkey, hM⟩ := h.mem k ent hpeek
      exact ⟨_, hkey, by rw [hM]; exact Option.some_ne_none ent⟩
    · exact ⟨path, hkey, hM⟩
  · rintro ⟨path, hkey, hM⟩
    by_cases hvalid : validKey (diskKey k)
    · exact .inr ⟨path, hkey, hvalid, hM⟩
    · exact .inl (by rwa [h.memOnly path k hkey hvalid])

theorem Keeps.keys (h : Keeps D c₀ P M c) : CacheSteps D c₀ P M c .keys := by
  refine ⟨⟨fun k => h.mem_keys, ?_, ?_⟩, h⟩
  · exact (List.mergeSort_perm _ _).nodup_iff.2 (List.nodup_dedup _)
  · exact GoString.pairwise_mergeSort id _

theorem Keeps.deletePaths (h : Keeps D c₀ P M c) (paths : List Path) (hcanon : ∀ path ∈ P, ∃ key, cacheKey path = some key)
    (hpaths : ∀ path ∈ paths, path ∈ P) :
    Keeps D c₀ P (fun path => if path ∈ paths then none else M path) (LayeredCache.delete paths c).2 := by
  induction paths generalizing M c with
  | nil => simpa [LayeredCache.delete] using h
  | cons path paths ih =>
    rw [List.forall_mem_cons] at hpaths
    obtain ⟨key, hkey⟩ := hcanon path hpaths.1
    have hrest := ih (h.deleteKey hpaths.1 hkey) hpaths.2
    have hmap : (fun p => if p ∈ path :: paths then none else M p) =
        fun p => if p ∈ paths then none else Function.update M path none p := by
      funext p
      rcases eq_or_ne p path with rfl | hne
      · simp
      · simp [hne]
    rw [hmap, LayeredCache.delete, hkey]
    exact hrest

/-- Of the keys that are looked at, those that match are gone. -/
theorem Keeps.evict (h : Keeps D c₀ P M c) (matching : GoString → Bool) (ks : List GoString)
    (hks : ∀ k ∈ ks, ∃ path ∈ P, cacheKey path = some k) :
    Keeps D c₀ P (fun path => if (cacheKey path).any (fun k => matching k && ks.contains k) then none else M path)
      (LayeredCache.evict matching ks c).2.2 := by
  induction ks generalizing M c with
  | nil => simpa [LayeredCache.evict] using h
  | cons k ks ih =>
    rw [List.forall_mem_cons] at hks
    obtain ⟨path, hpath, hkey⟩ := hks.1
    rw [LayeredCache.evict]
    split
    · rename_i hmatch
      have hrest := ih (h.deleteKey hpath hkey) hks.2
      have hmap : (fun p => if (cacheKey p).any (fun k' => matching k' && (k :: ks).contains k') then none else M p) =
          fun p => if (cacheKey p).any (fun k' => matching k' && ks.contains k') then none
            else Function.update M path none p := by
        funext p
        rcases eq_or_ne p path with rfl | hne
        · simp [hkey, hmatch]
        · have hother : ∀ k', cacheKey p = some k' → k' ≠ k := by
            rintro k' hk' rfl
            exact hne (cacheKey_inj hk' hkey)
          cases hp : cacheKey p with
          | none => simp [hne]
          | some k' => simp [hne, hother k' hp]
      rw [hmap]
      exact hrest
    · rename_i hmatch
      have hrest := ih h hks.2
      have hmap : (fun p => if (cacheKey p).any (fun k' => matching k' && (k :: ks).contains k') then none else M p) =
          fun p => if (cacheKey p).any (fun k' => matching k' && ks.contains k') then none else M p := by
        funext p
        cases hp : cacheKey p with
        | none => rfl
        | some k' =>
          rcases eq_or_ne k' k with rfl | hne
          · simp [hmatch]
          · simp [hne]
      rw [hmap]
      exact hrest

theorem Keeps.evictMatching (h : Keeps D c₀ P M c) (matching : GoString → Bool) :
    CacheSteps D c₀ P M c (.evictMatching matching) := by
  refine ⟨trivial, ?_⟩
  have hkeys : ∀ k ∈ c.keys, ∃ path ∈ P, cacheKey path = some k := by
    intro k hk
    obtain ⟨path, hkey, hM⟩ := h.mem_keys.1 hk
    exact ⟨path, h.onP path hM, hkey⟩
  have hevict := h.evict matching c.keys hkeys
  -- what is not looked at is not stored
  have hmap : (fun path => if (cacheKey path).any (fun k => matching k && c.keys.contains k) then none else M path) =
      (CacheOp.evictMatching matching).apply c₀.buildID M := by
    funext path
    simp only [CacheOp.apply]
    cases hkey : cacheKey path with
    | none => rfl
    | some k =>
      cases hM : M path with
      | none => simp
      | some ent =>
        have hmem : k ∈ c.keys := h.mem_keys.2 ⟨path, hkey, by rw [hM]; exact Option.some_ne_none ent⟩
        simp [hmem]
  rw [hmap] at hevict
  exact hevict

theorem Keeps.step (h : Keeps D c₀ P M c) (hmax : 0 < c₀.mem.max) (hcanon : ∀ path ∈ P, ∃ key, cacheKey path = some key)
    (hroom : Room c₀ P) {op : CacheOp H} (hop : op.On P) : CacheSteps D c₀ P M c op := by
  cases op with
  | put now path ent =>
    obtain ⟨key, hkey⟩ := hcanon path hop
    exact h.put hmax hroom hop hkey now ent
  | get now path =>
    obtain ⟨key, hkey⟩ := hcanon path hop
    exact h.get hmax hroom hop hkey now
  | getStale path =>
    obtain ⟨key, hkey⟩ := hcanon path hop
    exact h.getStale hop hkey
  | delete paths => exact ⟨trivial, h.deletePaths paths hcanon hop⟩
  | evictMatching matching => exact h.evictMatching matching
  | keys => exact h.keys

theorem Keeps.run (hstart : Keeps D c₀ P (fun _ => none) c₀) (hmax : 0 < c₀.mem.max)
    (hcanon : ∀ path ∈ P, ∃ key, cacheKey path = some key) (hroom : Room c₀ P) (ops : List (CacheOp H))
    (hops : ∀ op ∈ ops, op.On P) : Keeps D c₀ P (pages c₀.buildID ops) (runCache D c₀ ops) := by
  induction ops using List.reverseRecOn with
  | nil => exact hstart
  | append_singleton ops op ih =>
    have hprev := ih fun o ho => hops o (List.mem_append_left _ ho)
    rw [pages, runCache, List.foldl_concat, List.foldl_concat]
    exact (hprev.step hmax hcanon hroom (hops op (by simp))).2

end keeps

section start

variable {H B : Type} {D : Disk H B} {cfg : CacheConfig B} {c : LayeredCache H B}

theorem new_cache (hnew : newLayeredCache H cfg = some c) :
    0 < c.mem.max ∧ 0 < c.ttl ∧ (∀ key, c.mem.peek key = none) ∧ c.disk = cfg.disk := by
  rw [newLayeredCache] at hnew
  split at hnew
  · cases hnew
  · cases hnew
    refine ⟨?_, ?_, fun _ => rfl, rfl⟩
    · simp only [MemCache.newMemCache]
      split
      · decide
      · omega
    · simp only
      split
      · decide
      · omega

theorem Keeps.new (hnew : newLayeredCache H cfg = some c) (hdisk : cfg.disk = some .empty) (P : Set Path) :
    Keeps D c P (fun _ => none) c := by
  obtain ⟨_, _, hpeek, hc⟩ := new_cache hnew
  have hempty : onDisk D (fun _ => none) = fun _ => none := by
    funext k
    simp [onDisk]
  refine ⟨rfl, rfl, rfl, fun _ h => absurd rfl h, fun _ _ h => (nomatch h), fun key ent h => ?_, fun _ key _ _ => hpeek key,
    .empty, hc.trans hdisk, ?_⟩
  · rw [hpeek] at h
    cases h
  · rw [hempty]
    exact .empty

end start

/-! ## What does not fit -/

section refused

variable {H B : Type} [Inhabited H] {D : Disk H B} {c : LayeredCache H B} {P : Set Path} {path : Path} {key : GoString}

/-- An entry that is new at 1. -/
def sample (H : Type) [Inhabited H] (buildID : String) : CacheEntry H := ⟨default, "", 1, buildID⟩

theorem fill_sample (buildID : String) : (sample H buildID).fill buildID 1 = sample H buildID := by
  have hbuild : (if buildID = "" then buildID else buildID) = buildID := ite_self buildID
  rw [CacheEntry.fill, sample, hbuild]
  rfl

theorem build_sample (buildID : String) : ¬ (sample H buildID).buildID ≠ buildID := not_not.2 rfl

theorem put_sample (hkey : cacheKey path = some key) :
    (LayeredCache.put D 1 path (sample H c.buildID) c).2.mem = c.mem.put key (sample H c.buildID) ∧
      (LayeredCache.put D 1 path (sample H c.buildID) c).2.buildID = c.buildID := by
  rw [LayeredCache.put, hkey]
  simp only [fill_sample]
  rw [if_neg (build_sample c.buildID), LayeredCache.putDisk]
  split
  · exact ⟨rfl, rfl⟩
  · split <;> exact ⟨rfl, rfl⟩

/-- One put after the other, of distinct paths. -/
theorem runCache_samples (paths : List Path) (keys : List GoString) (hkeys : paths.map cacheKey = keys.map some) :
    (runCache D c (paths.map fun path => .put 1 path (sample H c.buildID))).buildID = c.buildID ∧
      (runCache D c (paths.map fun path => .put 1 path (sample H c.buildID))).mem.toLru =
        (keys.map fun key => (key, sample H c.buildID)).foldl (fun m e => m.put e.1 e.2) c.mem.toLru := by
  induction paths generalizing c keys with
  | nil =>
    cases keys with
    | nil => exact ⟨rfl, rfl⟩
    | cons _ _ => cases hkeys
  | cons path paths ih =>
    cases keys with
    | nil => cases hkeys
    | cons key keys =>
      rw [List.map_cons, List.map_cons, List.cons.injEq] at hkeys
      obtain ⟨hmem, hbuild⟩ := put_sample (D := D) (c := c) hkeys.1
      have hrest := ih (c := (LayeredCache.put D 1 path (sample H c.buildID) c).2) keys hkeys.2
      rw [hbuild, hmem, MemCache.put_toLru] at hrest
      exact hrest

theorem pages_samples (buildID : String) {path : Path} (paths : List Path) (hnot : path ∉ paths) (M : Pages H) :
    ((paths.map fun p => CacheOp.put 1 p (sample H buildID)).foldl (CacheOp.apply buildID) M) path = M path := by
  induction paths generalizing M with
  | nil => rfl
  | cons p paths ih =>
    rw [List.mem_cons, not_or] at hnot
    rw [List.map_cons, List.foldl_cons, ih hnot.2, CacheOp.apply, fill_sample, if_neg (build_sample _),
      Function.update_of_ne hnot.1]

omit [Inhabited H] in
theorem get_refused (hkey : cacheKey path = some key) (hvalid : ¬ validKey (diskKey key)) (hpeek : c.mem.peek key = none)
    (now : Int) : (c.get D now path).1 = none := by
  have hmem : c.fromMem now key = (none, { c with mem := (c.mem.get key).2 }) := by
    rw [fromMem_eq, hpeek]
    rfl
  rw [LayeredCache.get, hkey]
  simp only [LayeredCache.getKey, hmem, LayeredCache.fromDisk]
  cases c.disk with
  | none => rfl
  | some t => simp only [Storagex.open_refused D.toContents t hvalid]

/-- Of more paths than fit into memory one whose key the store refuses is forgotten. -/
theorem IsPageMap.room (h : IsPageMap D c P) (httl : 0 < c.ttl) (hcanon : ∀ path ∈ P, ∃ key, cacheKey path = some key) :
    Room c P := by
  rw [Room, or_iff_not_imp_right]
  intro hmany path hpath key hkey
  by_contra hvalid
  -- as many other paths as fit
  have hothers : (c.mem.max : ℕ∞) ≤ (P \ {path}).encard := by
    have hone := Set.encard_sdiff_singleton_add_one hpath
    have hlt : (c.mem.max : ℕ∞) < (P \ {path}).encard + 1 := hone ▸ not_le.1 hmany
    exact ENat.lt_add_one_iff' (ENat.natCast_ne_top _) |>.1 hlt
  obtain ⟨S, hsub, hcard⟩ := Set.exists_subset_encard_eq hothers
  have hfin : S.Finite := Set.finite_of_encard_eq_coe hcard
  obtain ⟨paths, hnodup, hmem⟩ : ∃ paths : List Path, paths.Nodup ∧ ∀ p, p ∈ paths ↔ p ∈ S :=
    ⟨hfin.toFinset.toList, Finset.nodup_toList _, by simp⟩
  have hlen : paths.length = c.mem.max := by
    have hS : S = (paths.toFinset : Set Path) := by
      ext p
      simp [hmem]
    rw [hS, Set.encard_coe_eq_coe_finsetCard, List.toFinset_card_of_nodup hnodup] at hcard
    exact_mod_cast hcard
  have hnot : path ∉ paths := fun hp => (hsub ((hmem path).1 hp)).2 rfl
  have hP : ∀ p ∈ path :: paths, p ∈ P := List.forall_mem_cons.2 ⟨hpath, fun p hp => (hsub ((hmem p).1 hp)).1⟩
  -- their keys
  let keyOf : Path → GoString := fun p => (cacheKey p).getD []
  have hkeyOf : ∀ p ∈ path :: paths, cacheKey p = some (keyOf p) := by
    intro p hp
    obtain ⟨k, hk⟩ := hcanon p (hP p hp)
    rw [hk]
    exact congrArg some (by simp [keyOf, hk])
  have hkeys : (path :: paths).map cacheKey = ((path :: paths).map keyOf).map some := by
    rw [List.map_map]
    exact List.map_congr_left hkeyOf
  have hdistinct : ((path :: paths).map keyOf).Nodup := by
    refine List.Nodup.map_on (fun p hp q hq heq => ?_) (List.nodup_cons.2 ⟨hnot, hnodup⟩)
    exact cacheKey_inj (hkeyOf p hp) (heq ▸ hkeyOf q hq)
  have hkeyPath : keyOf path = key := by simp [keyOf, hkey]
  let ops : List (CacheOp H) := (path :: paths).map fun p => .put 1 p (sample H c.buildID)
  have hops : ∀ op ∈ ops, op.On P := by
    intro op hop
    obtain ⟨p, hp, rfl⟩ := List.mem_map.1 hop
    exact hP p hp
  have hgone : (runCache D c ops).mem.peek key = none := by
    obtain ⟨_, hlru⟩ := runCache_samples (D := D) (c := c) (path :: paths) _ hkeys
    let kvs := ((path :: paths).map keyOf).map fun k => (k, sample H c.buildID)
    have hfst : kvs.map Prod.fst = (path :: paths).map keyOf := by
      rw [List.map_map]
      exact List.map_id _
    obtain ⟨rest, hentries⟩ := Lru.entries_puts c.mem.toLru kvs (by rw [hfst]; exact hdistinct)
    rw [← MemCache.peek_toLru, hlru]
    refine Option.eq_none_iff_forall_ne_some.2 fun ent hent => ?_
    rw [Lru.peek_eq_some, hentries] at hent
    have hlast : (kvs.reverse ++ rest).take c.mem.toLru.max =
        (paths.map fun p => (keyOf p, sample H c.buildID)).reverse := by
      have hmax : c.mem.toLru.max = (paths.map fun p => (keyOf p, sample H c.buildID)).reverse.length := by
        rw [List.length_reverse, List.length_map, hlen]
        rfl
      rw [hmax]
      simp [kvs, List.map_map, Function.comp_def]
    rw [hlast, List.mem_reverse, List.mem_map] at hent
    obtain ⟨p, hp, heq⟩ := hent
    rw [List.map_cons, List.nodup_cons, hkeyPath] at hdistinct
    exact hdistinct.1 (List.mem_map.2 ⟨p, hp, congrArg Prod.fst heq⟩)
  have hright := h ops hops (.get 1 path) hpath
  have hanswer : ((runCache D c ops).get D 1 path).1 = none := get_refused hkey hvalid hgone 1
  have hpages : pages c.buildID ops path = some (sample H c.buildID) := by
    have hfirst := pages_samples (H := H) c.buildID paths hnot
      ((CacheOp.put 1 path (sample H c.buildID)).apply c.buildID fun _ => none)
    refine hfirst.trans ?_
    rw [CacheOp.apply, fill_sample, if_neg (build_sample _), Function.update_self]
  change ((runCache D c ops).get D 1 path).1 = _ at hright
  rw [hanswer, hpages, Option.filter_some, if_pos] at hright
  · cases hright
  · simpa [CacheEntry.expired, sample] using httl.le

end refused

/-! ## Where the cache is a map -/

/-- A new cache over an empty directory is a map of canonical paths exactly where there is room for them. -/
theorem isPageMap_iff_room {H B : Type} [Inhabited H] (D : Disk H B) (cfg : CacheConfig B) (c : LayeredCache H B)
    (hnew : newLayeredCache H cfg = some c) (hdisk : cfg.disk = some .empty) (P : Set Path)
    (hcanon : ∀ path ∈ P, ∃ key, cacheKey path = some key) : IsPageMap D c P ↔ Room c P := by
  obtain ⟨hmax, httl, _⟩ := new_cache hnew
  constructor
  · exact fun h => h.room httl hcanon
  · exact fun hroom ops hops op hop =>
      (((Keeps.new hnew hdisk P).run hmax hcanon hroom ops hops).step hmax hcanon hroom hop).1

/-- Documents of entries among the files. -/
def entryDocuments : Disk GoString (CacheEntry GoString ⊕ GoString ⊕ Storagex.Meta) where
  len
    | .inl ent => ent.html.length
    | .inr b => Storagex.documents.len b
  sha256
    | .inl ent => ent.propsSHA256
    | .inr b => Storagex.documents.sha256 b
  detectContentType _ := "text/plain; charset=utf-8"
  dirSize := 4096
  marshal m := .inr (.inr m)
  unmarshal
    | .inr (.inr m) => some m
    | _ => none
  unmarshal_marshal m := ⟨m.filename, rfl⟩
  encode := .inl
  decode
    | .inl ent => some ent
    | .inr _ => none
  decode_encode _ := rfl

/-- Memory for one page. -/
def onePage : CacheConfig (CacheEntry GoString ⊕ GoString ⊕ Storagex.Meta) where
  buildID := "build"
  memPages := 1
  ttl := 0
  disk := some .empty

theorem blog_pages_map : ∃ c, newLayeredCache GoString onePage = some c ∧
    IsPageMap entryDocuments c {lit "/", lit "/blog", lit "/blog/x"} := by
  refine ⟨_, rfl, (isPageMap_iff_room entryDocuments onePage _ rfl rfl _ ?_).2 (.inl ?_)⟩
  · rintro path (rfl | rfl | rfl)
    exacts [⟨lit "index.html", by decide⟩, ⟨lit "blog", by decide⟩, ⟨lit "blog/x", by decide⟩]
  · have hvalid : ∀ path ∈ [lit "/", lit "/blog", lit "/blog/x"],
        ∃ key, cacheKey path = some key ∧ validKey (diskKey key) := by
      intro path hpath
      have hall : ∀ path ∈ [lit "/", lit "/blog", lit "/blog/x"],
          (cacheKey path).any (fun key => validKey (diskKey key)) := by decide
      simpa [Option.any_eq_true] using hall path hpath
    intro path hpath key hkey
    obtain ⟨key', hkey', hvalid⟩ := hvalid path (by simpa using hpath)
    rw [hkey] at hkey'
    rwa [Option.some.inj hkey']

/-- A page whose key the store refuses is gone when another page is put. -/
theorem reserved_page_forgotten : ∃ c, newLayeredCache GoString onePage = some c ∧
    ((cacheKey (lit "/con")).isSome ∧ (cacheKey (lit "/blog")).isSome) ∧
      ¬ IsPageMap entryDocuments c {lit "/con", lit "/blog"} := by
  obtain ⟨c, hc⟩ : ∃ c, newLayeredCache GoString onePage = some c := ⟨_, rfl⟩
  refine ⟨c, hc, ⟨by decide, by decide⟩, fun h => ?_⟩
  let ops : List (CacheOp GoString) :=
    [.put 1 (lit "/con") ⟨lit "con", "", 1, "build"⟩, .put 1 (lit "/blog") ⟨lit "blog", "", 1, "build"⟩]
  have hops : ∀ op ∈ ops, op.On {lit "/con", lit "/blog"} :=
    List.forall_mem_cons.2 ⟨.inl rfl, List.forall_mem_cons.2 ⟨.inr rfl, fun _ hop => (nomatch hop)⟩⟩
  have hright := h ops hops (.getStale (lit "/con")) (.inl rfl)
  have hforgotten : ((newLayeredCache GoString onePage).bind fun c =>
      (runCache entryDocuments c ops).getStale entryDocuments (lit "/con")) = none := by decide
  have hstored : (pages "build" ops (lit "/con")).isSome := by decide
  rw [hc, Option.bind_some] at hforgotten
  have hbuild : c.buildID = "build" := by
    cases hc
    rfl
  rw [hbuild] at hright
  change (runCache entryDocuments c ops).getStale entryDocuments (lit "/con") = pages "build" ops (lit "/con") at hright
  rw [← hright, hforgotten] at hstored
  cases hstored

end Ploykit.Renderx

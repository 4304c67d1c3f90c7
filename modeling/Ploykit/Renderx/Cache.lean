import Ploykit.Renderx.MemCache
import Ploykit.Renderx.Routes
import Ploykit.Storagex.Local

/-!
# The layered cache

`LayeredCache` of `platform/renderx/cache.go`. Times are nanoseconds from the zero time. The
directory of the cache holds the entries alone: the marker of the build and the list of
poisoned pages lie in it too, under names that no entry has.

`fromMem`, `fromDisk` and `keep` are what one lock or one call of the store does for `Get`.
-/

namespace Ploykit.Renderx

open Lib GoString
open Storagex (Contents)

structure CacheEntry (H : Type) where
  html : H
  propsSHA256 : String
  builtAt : Int
  buildID : String
  deriving DecidableEq, Repr

def CacheEntry.expired {H : Type} (ttl now : Int) (ent : CacheEntry H) : Bool := ttl < now - ent.builtAt

/-- The defaults of an entry that is put. -/
def CacheEntry.fill {H : Type} (buildID : String) (now : Int) (ent : CacheEntry H) : CacheEntry H :=
  { ent with
    buildID := if ent.buildID = "" then buildID else ent.buildID
    builtAt := if ent.builtAt = 0 then now else ent.builtAt }

/-- The contents of files, and the documents of entries among them. -/
structure Disk (H B : Type) extends Contents B where
  encode : CacheEntry H → B
  decode : B → Option (CacheEntry H)
  decode_encode : ∀ ent, decode (encode ent) = some ent

structure LayeredCache (H B : Type) where
  buildID : String
  ttl : Int
  mem : MemCache (CacheEntry H)
  disk : Option (Storagex.Tree B)

structure CacheConfig (B : Type) where
  buildID : String
  memPages : Int
  ttl : Int
  disk : Option (Storagex.Tree B)

def defaultMemPages : Nat := 1024

def defaultTTL : Int := 60 * 60 * 1000000000

/-- `NewLayeredCache`, which refuses an empty build. -/
def newLayeredCache (H : Type) {B : Type} (cfg : CacheConfig B) : Option (LayeredCache H B) :=
  if cfg.buildID = "" then none
  else some
    { buildID := cfg.buildID
      ttl := if cfg.ttl ≤ 0 then defaultTTL else cfg.ttl
      mem := .newMemCache (if cfg.memPages ≤ 0 then defaultMemPages else cfg.memPages.toNat)
      disk := cfg.disk }

def diskEntrySuffix : GoString := lit ".entry"

def diskKey (key : GoString) : Storagex.Key := key ++ diskEntrySuffix

inductive CacheErr where
  | invalidCacheKey
  | buildIDMismatch
  | disk (e : Storagex.Err)
  deriving DecidableEq, Repr

namespace LayeredCache

variable {H B : Type} (D : Disk H B)

def expired (c : LayeredCache H B) (now : Int) (ent : CacheEntry H) : Bool := ent.expired c.ttl now

section get

variable (now : Int) (key : GoString) (c : LayeredCache H B)

def fromMem : Option (CacheEntry H) × LayeredCache H B :=
  let (found, mem) := c.mem.get key
  (found.filter fun ent => !c.expired now ent, { c with mem })

/-- A directory cannot be read. -/
def decodeNode : FileNode B → Option (CacheEntry H)
  | .file b => D.decode b
  | .dir => none

/-- An entry that cannot be decoded is deleted. -/
def fromDisk : Option (CacheEntry H) × LayeredCache H B :=
  match c.disk with
  | none => (none, c)
  | some t =>
    match Storagex.openObject D.toContents (diskKey key) t with
    | .error _ => (none, c)
    | .ok (f, _) =>
      match decodeNode D f with
      | none => (none, { c with disk := some (Storagex.delete (diskKey key) t).2 })
      | some ent => (if ent.buildID ≠ c.buildID ∨ c.expired now ent then none else some ent, c)

def keep (ent : CacheEntry H) : LayeredCache H B := { c with mem := c.mem.put key ent }

def getKey : Option (CacheEntry H) × LayeredCache H B :=
  match c.fromMem now key with
  | (some ent, c) => (some ent, c)
  | (none, c) =>
    match c.fromDisk D now key with
    | (none, c) => (none, c)
    | (some ent, c) => (some ent, c.keep key ent)

def get (path : Path) : Option (CacheEntry H) × LayeredCache H B :=
  match cacheKey path with
  | none => (none, c)
  | some key => c.getKey D now key

end get

def putDisk (key : GoString) (ent : CacheEntry H) (c : LayeredCache H B) : Except CacheErr Unit × LayeredCache H B :=
  match c.disk with
  | none => (.ok (), c)
  | some t =>
    match Storagex.put D.toContents (diskKey key) "application/json" (D.encode ent) t with
    | (.ok _, t) => (.ok (), { c with disk := some t })
    | (.error e, t) => (.error (.disk e), { c with disk := some t })

def put (now : Int) (path : Path) (ent : CacheEntry H) (c : LayeredCache H B) : Except CacheErr Unit × LayeredCache H B :=
  match cacheKey path with
  | none => (.error .invalidCacheKey, c)
  | some key =>
    let ent := ent.fill c.buildID now
    if ent.buildID ≠ c.buildID then (.error .buildIDMismatch, c)
    else (c.keep key ent).putDisk D key ent

def deleteMem (key : GoString) (c : LayeredCache H B) : LayeredCache H B := { c with mem := c.mem.delete key }

def deleteDisk (key : GoString) (c : LayeredCache H B) : List CacheErr × LayeredCache H B :=
  match c.disk with
  | none => ([], c)
  | some t =>
    match Storagex.delete (diskKey key) t with
    | (.ok _, t) => ([], { c with disk := some t })
    | (.error e, t) => ([.disk e], { c with disk := some t })

/-- `Delete`, which goes on after an error. -/
def delete : List Path → LayeredCache H B → List CacheErr × LayeredCache H B
  | [], c => ([], c)
  | path :: paths, c =>
    let (errs, c) :=
      match cacheKey path with
      | none => ([.invalidCacheKey], c)
      | some key => (c.deleteMem key).deleteDisk key
    let (errs', c) := delete paths c
    (errs ++ errs', c)

/-- `GetStale`, which does not ask how old the entry is. -/
def getStale (path : Path) (c : LayeredCache H B) : Option (CacheEntry H) :=
  match cacheKey path with
  | none => none
  | some key =>
    match (c.mem.peek key).filter (·.buildID = c.buildID) with
    | some ent => some ent
    | none =>
      match c.disk with
      | none => none
      | some t =>
        match Storagex.openObject D.toContents (diskKey key) t with
        | .error _ => none
        | .ok (f, _) => (decodeNode D f).filter (·.buildID = c.buildID)

/-- The part of `GetStale` that reads the disk. -/
def diskPeek (key : GoString) (c : LayeredCache H B) : Option (CacheEntry H) :=
  match c.disk with
  | none => none
  | some t =>
    match Storagex.openObject D.toContents (diskKey key) t with
    | .error _ => none
    | .ok (f, _) => decodeNode D f

/-- The files of entries that the walk comes by. -/
def diskKeys (c : LayeredCache H B) : List GoString :=
  match c.disk with
  | none => []
  | some t => t.files.filterMap fun (p, _) =>
    if diskEntrySuffix <:+ join p then some ((join p).trimSuffix diskEntrySuffix) else none

def keys (c : LayeredCache H B) : List GoString := (c.mem.keys ++ c.diskKeys).dedup.mergeSort fun a b => a ≤ b

/-- How many entries were evicted, and what went wrong. -/
def evict (matching : GoString → Bool) : List GoString → LayeredCache H B → Nat × List CacheErr × LayeredCache H B
  | [], c => (0, [], c)
  | key :: keys, c =>
    if matching key then
      let (errs, c) := (c.deleteMem key).deleteDisk key
      let (n, errs', c) := evict matching keys c
      (if errs = [] then n + 1 else n, errs ++ errs', c)
    else evict matching keys c

def evictMatching (matching : GoString → Bool) (c : LayeredCache H B) : Nat × List CacheErr × LayeredCache H B :=
  c.evict matching c.keys

end LayeredCache

end Ploykit.Renderx

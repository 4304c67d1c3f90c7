import Ploykit.Lib.Schedule
import Ploykit.Renderx.Cache

/-!
# Serving and invalidating

`ServeHTTP` with `serveStatic` and `embedPage`, `GetOrLoadHit` with its loads in flight, and
`Invalidate`. Each lock of the memory, each call of the store and each lookup of a tombstone or
a load in flight is one step of a goroutine, and so is the load of a page. Of a call of the
store only the rename or the removal of the entry decides what is read.

How often a path has been invalidated is counted beside the world, and so is what each
goroutine has seen of it. Nothing reads these counts.
-/

namespace Ploykit.Renderx.Pages

open Lib GoString

/-- What is sent, with the invalidations of its path that had been called when its data were loaded. -/
structure Page where
  html : GoString
  loaded : Nat
  deriving DecidableEq, Repr

abbrev Entry := CacheEntry Page

/-! ## Tombstones -/

structure EmbedTombstone where
  exact : List Path := []
  patterns : List Path := []

namespace EmbedTombstone

variable (t : EmbedTombstone)

def add (pathOrPattern : Path) : EmbedTombstone :=
  if hasParams pathOrPattern then
    if t.patterns.contains pathOrPattern then t else { t with patterns := t.patterns ++ [pathOrPattern] }
  else { t with exact := pathOrPattern :: t.exact }

def has (path : Path) : Bool := t.exact.contains path || t.patterns.any fun p => (matchPath p path).isSome

end EmbedTombstone

/-! ## The world -/

/-- A load that others may wait for. -/
structure Flight where
  path : Path
  result : Option (Except LoadErr (Entry × Bool)) := none

/-- A page that was served, with the invalidations of its path that had returned when the request began. -/
structure Served where
  page : Page
  began : Nat

/-- What a goroutine has seen of the counts. -/
structure Seen where
  /-- The invalidations of the path that had returned when the request began. -/
  began : Nat := 0
  /-- The number that its invalidation has among those of a path. -/
  called : Path → Nat := fun _ => 0
  served : Option Served := none

structure World (B : Type) where
  cache : LayeredCache Page B
  dead : EmbedTombstone
  flights : Nat → Option Flight
  inFlight : Path → Option Nat
  nextFlight : Nat
  /-- How many invalidations of the path have been called. -/
  called : Path → Nat
  /-- The last of them that has returned without an error. -/
  settled : Path → Nat
  /-- The last of them that has found the memory, and the disk, without the path or made it so. -/
  clearedMem : Path → Nat
  clearedDisk : Path → Nat
  seen : Nat → Seen

/-- What does not change. -/
structure Site (B : Type) where
  disk : Disk Page B
  buildID : String
  statics : List RouteSpec
  /-- The embedded files, by name. -/
  prerenderFS : Option (GoString → Option GoString)
  registry : Registry GoString

/-- An invalidation of the pattern, by itself, affects the path. -/
def hits (params : Params) (path pattern : Path) : Bool :=
  if hasParams pattern then
    match expandPath pattern params with
    | some loc => path = loc
    | none => (matchPath pattern path).isSome
  else path = pattern

def Site.affects {B : Type} (site : Site B) (pattern : Path) (params : Params) (path : Path) : Bool :=
  (site.registry.affectedPatterns pattern).any (hits params path)

/-! ## Calls -/

inductive Joined where
  | leads (id : Nat)
  | waits (id : Nat)

inductive Op : Type → Type
  /-- A request for the path begins. -/
  | requested (path : Path) : Op Unit
  | embedDead (path : Path) : Op Bool
  | poisoned (path : Path) : Op Bool
  | poison (path : Path) : Op Unit
  | memGet (key : GoString) : Op (Option Entry)
  | diskGet (key : GoString) : Op (Option Entry)
  | memPut (key : GoString) (ent : Entry) : Op Unit
  | diskPut (key : GoString) (ent : Entry) : Op Unit
  | memPeek (key : GoString) : Op (Option Entry)
  | diskPeek (key : GoString) : Op (Option Entry)
  | now : Op Int
  | join (path : Path) : Op Joined
  | load (path : Path) (rt : RouteSpec) (params : Params) : Op (Except LoadErr Entry)
  | land (id : Nat) (r : Except LoadErr (Entry × Bool)) : Op Unit
  | wait (id : Nat) : Op (Except LoadErr (Entry × Bool))
  | serve (path : Path) (page : Page) : Op Unit
  /-- An invalidation is called. -/
  | called (pattern : Path) (params : Params) : Op Unit
  | bury (pathOrPattern : Path) : Op Unit
  | memDelete (key : GoString) : Op Unit
  | diskDelete (key : GoString) : Op Bool
  | memKeys : Op (List GoString)
  | diskKeys : Op (List GoString)
  /-- The invalidation returns without an error. -/
  | returned : Op Unit

namespace World

variable {B : Type} (w : World B) (i : Nat)

def see (f : Seen → Seen) : World B := { w with seen := Function.update w.seen i (f (w.seen i)) }

def begin (path : Path) : World B := w.see i fun s => { s with began := w.settled path }

def serve (page : Page) : World B := w.see i fun s => { s with served := some ⟨page, s.began⟩ }

def call (affects : Path → Bool) : World B :=
  { w.see i fun s => { s with called := fun path => if affects path then w.called path + 1 else 0 } with
    called := fun path => if affects path then w.called path + 1 else w.called path }

/-- The invalidation of `i` is the last that has cleared the paths. -/
def later (cleared : Path → Nat) (which : Path → Bool) (path : Path) : Nat :=
  if which path then max (cleared path) ((w.seen i).called path) else cleared path

def hasKey (key : GoString) (path : Path) : Bool := cacheKey path = some key

/-- The path has a key, which is not among these. -/
def absent (keys : List GoString) (path : Path) : Bool := (cacheKey path).any fun key => !keys.contains key

def memDelete (key : GoString) : World B :=
  { w with cache := w.cache.deleteMem key, clearedMem := w.later i w.clearedMem (hasKey key) }

def diskDelete (key : GoString) : Bool × World B :=
  let (errs, cache) := w.cache.deleteDisk key
  if errs = [] then (true, { w with cache, clearedDisk := w.later i w.clearedDisk (hasKey key) })
  else (false, { w with cache })

def memKeys : List GoString × World B :=
  (w.cache.mem.keys, { w with clearedMem := w.later i w.clearedMem (absent w.cache.mem.keys) })

def diskKeys : List GoString × World B :=
  (w.cache.diskKeys, { w with clearedDisk := w.later i w.clearedDisk (absent w.cache.diskKeys) })

def settle : World B := { w with settled := w.later i w.settled fun _ => true }

def join (path : Path) : Joined × World B :=
  match w.inFlight path with
  | some id => (.waits id, w)
  | none =>
    (.leads w.nextFlight,
      { w with
        flights := Function.update w.flights w.nextFlight (some { path })
        inFlight := Function.update w.inFlight path (some w.nextFlight)
        nextFlight := w.nextFlight + 1 })

/-- The load is over, and the next request of the path starts another. -/
def land (id : Nat) (r : Except LoadErr (Entry × Bool)) : World B :=
  { w with
    flights := Function.update w.flights id ((w.flights id).map fun f => { f with result := some r })
    inFlight := fun path => if w.inFlight path = some id then none else w.inFlight path }

end World

/-- One call of goroutine `i`. Whether a path is poisoned, the time, and what is loaded are left open. -/
def Step {B : Type} (site : Site B) (i : Nat) : {β : Type} → Op β → World B → β → World B → Prop
  | _, .requested path, w, _, w' => w' = w.begin i path
  | _, .embedDead path, w, r, w' => r = w.dead.has path ∧ w' = w
  | _, .poisoned _, w, _, w' => w' = w
  | _, .poison _, w, _, w' => w' = w
  | _, .memGet key, w, r, w' => ∃ now, r = (w.cache.fromMem now key).1 ∧ w' = { w with cache := (w.cache.fromMem now key).2 }
  | _, .diskGet key, w, r, w' => ∃ now, r = (w.cache.fromDisk site.disk now key).1 ∧
      w' = { w with cache := (w.cache.fromDisk site.disk now key).2 }
  | _, .memPut key ent, w, _, w' => w' = { w with cache := w.cache.keep key ent }
  | _, .diskPut key ent, w, _, w' => w' = { w with cache := (w.cache.putDisk site.disk key ent).2 }
  | _, .memPeek key, w, r, w' => r = w.cache.mem.peek key ∧ w' = w
  | _, .diskPeek key, w, r, w' => r = w.cache.diskPeek site.disk key ∧ w' = w
  | _, .now, w, _, w' => w' = w
  | _, .join path, w, r, w' => r = (w.join path).1 ∧ w' = (w.join path).2
  | _, .load path _ _, w, r, w' => (∀ ent, r = .ok ent → ent.html.loaded = w.called path ∧ ent.builtAt = 0 ∧ ent.buildID = "") ∧
      w' = w
  | _, .land id r, w, _, w' => w' = w.land id r
  | _, .wait id, w, r, w' => (∃ f, w.flights id = some f ∧ f.result = some r) ∧ w' = w
  | _, .serve _ page, w, _, w' => w' = w.serve i page
  | _, .called pattern params, w, _, w' => w' = w.call i (site.affects pattern params)
  | _, .bury pathOrPattern, w, _, w' => w' = { w with dead := w.dead.add pathOrPattern }
  | _, .memDelete key, w, _, w' => w' = w.memDelete i key
  | _, .diskDelete key, w, r, w' => r = (w.diskDelete i key).1 ∧ w' = (w.diskDelete i key).2
  | _, .memKeys, w, r, w' => r = (w.memKeys i).1 ∧ w' = (w.memKeys i).2
  | _, .diskKeys, w, r, w' => r = (w.diskKeys i).1 ∧ w' = (w.diskKeys i).2
  | _, .returned, w, _, w' => w' = w.settle i

def machine {B : Type} (site : Site B) : Machine Op (World B) where
  step i := Step site i
  abort _ w := w
  env w w' := w' = w

/-! ## Programs -/

namespace Serving

abbrev Proc := Script Op

section programs

variable {B : Type} (site : Site B)

/-- `Get` -/
def get (key : GoString) : Proc (Option Entry) := do
  match ← Script.op (.memGet key) with
  | some ent => pure (some ent)
  | none =>
    match ← Script.op (.diskGet key) with
    | none => pure none
    | some ent => do
      Script.op (.memPut key ent)
      pure (some ent)

/-- `Put` of an entry that was loaded, whose error nobody asks for. -/
def put (key : GoString) (ent : Entry) : Proc Unit := do
  let now ← Script.op .now
  let ent := ent.fill site.buildID now
  if ent.buildID ≠ site.buildID then pure ()
  else do
    Script.op (.memPut key ent)
    Script.op (.diskPut key ent)

def loadOrReplay (path : Path) (key : GoString) (rt : RouteSpec) (params : Params) : Proc (Except LoadErr (Entry × Bool)) := do
  match ← get key with
  | some ent => pure (.ok (ent, true))
  | none =>
    match ← Script.op (.load path rt params) with
    | .error e => pure (.error e)
    | .ok ent => do
      put site key ent
      pure (.ok (ent, false))

def getOrLoadHit (path : Path) (key : GoString) (rt : RouteSpec) (params : Params) : Proc (Except LoadErr (Entry × Bool)) := do
  match ← get key with
  | some ent => pure (.ok (ent, true))
  | none =>
    match ← Script.op (.join path) with
    | .waits id => Script.op (.wait id)
    | .leads id => do
      let r ← loadOrReplay site path key rt params
      Script.op (.land id r)
      pure r

/-- `serveStaleOrError` -/
def serveStale (path : Path) : Proc Unit := do
  match cacheKey path with
  | none => pure ()
  | some key =>
    match (← Script.op (.memPeek key)).filter (·.buildID = site.buildID) with
    | some ent => Script.op (.serve path ent.html)
    | none =>
      match (← Script.op (.diskPeek key)).filter (·.buildID = site.buildID) with
      | some ent => Script.op (.serve path ent.html)
      | none => pure ()

def serveStatic (path : Path) (rt : RouteSpec) (params : Params) : Proc Unit := do
  if ← Script.op (.poisoned path) then serveStale site path
  else
    match cacheKey path with
    | none => serveStale site path
    | some key =>
      match ← getOrLoadHit site path key rt params with
      | .ok (ent, _) => Script.op (.serve path ent.html)
      | .error .pageNotFound => pure ()
      | .error .renderTimeout => do
        Script.op (.poison path)
        serveStale site path
      | .error _ => serveStale site path

def embedPage (path : Path) : Proc (Option GoString) := do
  match site.prerenderFS with
  | none => pure none
  | some fs =>
    if ← Script.op (.embedDead path) then pure none
    else pure ((pageFilePath path).bind fs)

/-- `ServeHTTP` of a GET. -/
def serveHTTP (path : Path) : Proc Unit := do
  Script.op (.requested path)
  if (trailingSlashRedirect path).isSome then pure ()
  else
    match ← embedPage site path with
    | some html => Script.op (.serve path ⟨html, 0⟩)
    | none =>
      match matchStatic site.statics path with
      | some (rt, params) => serveStatic site path rt params
      | none => pure ()

/-- `Delete` of a path. -/
def deletePath (path : Path) : Proc Bool := do
  match cacheKey path with
  | none => pure false
  | some key => do
    Script.op (.memDelete key)
    Script.op (.diskDelete key)

def evict (pattern : Path) : List GoString → Proc Bool
  | [] => pure true
  | key :: keys =>
    if (matchPath pattern (keyToPath key)).isSome then do
      Script.op (.memDelete key)
      let ok ← Script.op (.diskDelete key)
      let rest ← evict pattern keys
      pure (ok && rest)
    else evict pattern keys

def evictMatching (pattern : Path) : Proc Bool := do
  let mem ← Script.op .memKeys
  let disk ← Script.op .diskKeys
  evict pattern ((mem ++ disk).dedup.mergeSort fun a b => a ≤ b)

def invalidatePattern (params : Params) (pattern : Path) : Proc Bool := do
  if hasParams pattern then
    match expandPath pattern params with
    | some loc => do
      Script.op (.bury loc)
      deletePath loc
    | none => do
      Script.op (.bury pattern)
      evictMatching pattern
  else do
    Script.op (.bury pattern)
    deletePath pattern

def invalidateAll (params : Params) : List Path → Proc Bool
  | [] => pure true
  | pattern :: patterns => do
    if ← invalidatePattern params pattern then invalidateAll params patterns
    else pure false

def invalidate (pattern : Path) (params : Params) : Proc Unit := do
  Script.op (.called pattern params)
  if ← invalidateAll params (site.registry.affectedPatterns pattern) then Script.op .returned
  else pure ()

inductive Program : Proc Unit → Prop
  | serveHTTP (path : Path) : Program (serveHTTP site path)
  | invalidate (pattern : Path) (params : Params) : Program (invalidate site pattern params)

end programs

end Serving

end Ploykit.Renderx.Pages

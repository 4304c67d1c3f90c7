import Ploykit.Lib.Calendar
import Ploykit.Lib.Circular
import Ploykit.Lib.Slices
import Ploykit.Platform.Json

/-!
# The log ring

`Ring` of `logring`, less its lock, and its handler. The front of the list of requests is the
one that was used least recently. Counters are of 64 bits. A value of `slog` is a group, or
known by the text of its `String`; the zero value is `null`. The pre-baked attributes of a
handler are a slice, which handlers that are derived from it share.
-/

namespace Ploykit.Logring

open Lib

structure Attr where
  key : String
  value : String
  deriving DecidableEq, Repr

structure Entry where
  time : Time
  level : Int
  message : String
  requestID : String := ""
  attrs : List Attr := []
  deriving DecidableEq, Repr

structure Query where
  minLevel : Int := 0
  limit : Int := 0
  deriving DecidableEq, Repr

structure Options where
  capacity : Int := 0
  perRequestCapacity : Int := 0
  maxRequests : Int := 0
  redact : Option Bool := none
  deriving DecidableEq, Repr

def defaultCapacity : Nat := 4096

def defaultPerRequest : Nat := 256

def defaultMaxRequests : Nat := 512

def orDefault (v : Int) (default : Nat) : Nat := if v > 0 then v.toNat else default

theorem orDefault_pos (v : Int) {default : Nat} (h : 0 < default) : 0 < orDefault v default := by
  unfold orDefault
  split
  · omega
  · exact h

structure Bucket where
  entries : List Entry := []
  head : Nat := 0
  full : Bool := false
  deriving DecidableEq, Repr

structure Ring where
  tail : List Entry := []
  tailHead : Nat := 0
  capacity : Nat
  perRequest : Nat
  maxRequests : Nat
  redact : Bool
  buckets : GoMap Bucket := ∅
  lru : List String := []
  captured : UInt64 := 0
  droppedGlobal : UInt64 := 0
  droppedPerRequest : UInt64 := 0
  droppedRequests : UInt64 := 0

structure Stats where
  captured : UInt64
  droppedGlobal : UInt64
  droppedPerRequest : UInt64
  droppedRequests : UInt64
  requests : Nat
  deriving DecidableEq, Repr

/-- The ring of `New`. -/
def Ring.new (opt : Options) : Ring where
  capacity := orDefault opt.capacity defaultCapacity
  perRequest := orDefault opt.perRequestCapacity defaultPerRequest
  maxRequests := orDefault opt.maxRequests defaultMaxRequests
  redact := opt.redact.getD true

namespace Ring

variable (r : Ring)

/-! ## Capturing -/

/-- The global tail window. -/
def addTail (e : Entry) : Ring :=
  if r.tail.length < r.capacity then { r with tail := r.tail ++ [e] }
  else { r with
    tail := r.tail.set r.tailHead e
    tailHead := (r.tailHead + 1) % r.capacity
    droppedGlobal := r.droppedGlobal + 1 }

/-- The request that was used least recently makes room. -/
def makeRoom : Ring :=
  if r.buckets.entries.length ≥ r.maxRequests then
    let r := match r.lru with
      | [] => r
      | oldest :: rest => { r with buckets := r.buckets.erase oldest, lru := rest }
    { r with droppedRequests := r.droppedRequests + 1 }
  else r

/-- The bucket of the request, and the ring in which it was used last. -/
def useBucket (rid : String) : Bucket × Ring :=
  match r.buckets.lookup rid with
  | none =>
    let r := r.makeRoom
    ({}, { r with lru := r.lru ++ [rid], buckets := r.buckets.insert rid {} })
  | some b => (b, { r with lru := r.lru.erase rid ++ [rid] })

def addBucket (rid : String) (b : Bucket) (e : Entry) : Ring :=
  if b.entries.length < r.perRequest then
    let entries := b.entries ++ [e]
    let b := { b with entries }
    let b := if entries.length = r.perRequest then { b with full := true, head := 0 } else b
    { r with buckets := r.buckets.insert rid b }
  else
    { r with
      buckets := r.buckets.insert rid { b with entries := b.entries.set b.head e, head := (b.head + 1) % r.perRequest }
      droppedPerRequest := r.droppedPerRequest + 1 }

/-- What `capture` does under the lock. -/
def store (e : Entry) : Ring :=
  let r := { r with captured := r.captured + 1 }
  let r := r.addTail e
  if e.requestID = "" then r
  else
    let (b, r) := r.useBucket e.requestID
    r.addBucket e.requestID b e

end Ring

/-! ## Reading -/

def filterEntries (entries : List Entry) (q : Query) : List Entry :=
  let limit := if q.limit ≤ 0 then 100 else q.limit.toNat
  let out := entries.filter fun e => e.level ≥ q.minLevel
  if out.length > limit then out.drop (out.length - limit) else out

def ordered (entries : List Entry) (head : Nat) (full : Bool) : List Entry := if ¬ full then entries else unroll entries head

namespace Ring

variable (r : Ring)

def byRequestID (requestID : String) (q : Query) : List Entry :=
  if requestID = "" then []
  else match r.buckets.lookup requestID with
    | none => []
    | some b => filterEntries (ordered b.entries b.head b.full) q

def tailEntries (q : Query) : List Entry := filterEntries (unroll r.tail r.tailHead) q

def stats : Stats where
  captured := r.captured
  droppedGlobal := r.droppedGlobal
  droppedPerRequest := r.droppedPerRequest
  droppedRequests := r.droppedRequests
  requests := r.buckets.entries.length

end Ring

/-! ## Attributes of slog -/

inductive Slog.Value where
  | null
  | text (s : String)
  | group (attrs : List (String × Slog.Value))

/-- `slog.Attr`, the key and the value. -/
abbrev Slog.Attr := String × Slog.Value

namespace Slog

def Value.isGroup : Value → Bool
  | .group _ => true
  | _ => false

/-- `a.Equal(slog.Attr{})` -/
def isZero : Attr → Bool
  | (key, .null) => key = ""
  | _ => false

mutual

def Value.string : Value → String
  | .null => "<nil>"
  | .text s => s
  | .group attrs => "[" ++ " ".intercalate (strings attrs) ++ "]"

/-- The attributes of a group as `fmt` prints them. -/
def strings : List Attr → List String
  | [] => []
  | (key, v) :: attrs => (key ++ "=" ++ v.string) :: strings attrs

end

end Slog

/-! ## Flattening -/

def joinKey (groups : List String) (k : String) : String :=
  if groups ≠ [] then ".".intercalate groups ++ "." ++ k else k

mutual

/-- `flatten` of `capture`, of an attribute by its key and its value. -/
def flattenAttr (redact : String → String) (groups : List String) (key : String) : Slog.Value → List Attr
  | .null => if key = "" then [] else [{ key := joinKey groups key, value := redact (Slog.Value.string .null) }]
  | .text s => [{ key := joinKey groups key, value := redact s }]
  | .group attrs => flattenAttrs redact (groups ++ [key]) attrs

def flattenAttrs (redact : String → String) (groups : List String) : List Slog.Attr → List Attr
  | [] => []
  | (key, v) :: attrs => flattenAttr redact groups key v ++ flattenAttrs redact groups attrs

end

instance : Inhabited Attr := ⟨{ key := "", value := "" }⟩

/-! ## Handlers -/

structure Handler where
  prebaked : Slice
  groups : List String

section Derive

variable (grow : Nat → Nat → Nat)

def appendPrebaked (p : Arrays Attr × Slice) (groups : List String) (a : Slog.Attr) (extraPrefix : String) : Arrays Attr × Slice :=
  if Slog.isZero a then p
  else
    let key := joinKey groups a.1
    let key := if extraPrefix ≠ "" then extraPrefix ++ "." ++ key else key
    p.2.append grow p.1 { key, value := a.2.string }

def bakeAttr (groups : List String) (p : Arrays Attr × Slice) (a : Slog.Attr) : Arrays Attr × Slice :=
  match a.2 with
  | .group attrs =>
    let base := joinKey groups a.1
    attrs.foldl (fun p ga => appendPrebaked grow p groups ga base) p
  | _ => appendPrebaked grow p groups a ""

/-- `WithAttrs` of a handler whose slice is in the heap. -/
def Handler.withAttrs (h : Handler) (heap : Arrays Attr) (attrs : List Slog.Attr) : Arrays Attr × Handler :=
  if attrs.length = 0 then (heap, h)
  else
    let (heap, baked) := attrs.foldl (bakeAttr grow h.groups) (heap, h.prebaked)
    (heap, { h with prebaked := baked })

def Handler.withGroup (h : Handler) (name : String) : Handler :=
  if name = "" then h else { h with groups := h.groups ++ [name] }

end Derive

/-! ## Records -/

structure Record where
  time : Time
  level : Int
  message : String
  attrs : List Slog.Attr

def Ring.redactString (r : Ring) (scrub : String → String) (s : String) : String := if ¬ r.redact then s else scrub s

/-- The entry that `capture` builds. -/
def Ring.entry (r : Ring) (scrub : String → String) (rid : String) (rec : Record) (baked : List Attr) (groups : List String) : Entry where
  time := rec.time
  level := rec.level
  message := r.redactString scrub rec.message
  requestID := rid
  attrs := baked.map (fun a => { a with value := r.redactString scrub a.value }) ++
    flattenAttrs (r.redactString scrub) groups rec.attrs

def Ring.capture (r : Ring) (scrub : String → String) (rid : String) (rec : Record) (baked : List Attr) (groups : List String) : Ring :=
  r.store (r.entry scrub rid rec baked groups)

theorem Ring.store_redact (r : Ring) (e : Entry) : (r.store e).redact = r.redact := by
  have hadd : ∀ r : Ring, (r.addTail e).redact = r.redact := fun r => by unfold addTail; split <;> rfl
  have hroom : ∀ r : Ring, r.makeRoom.redact = r.redact := fun r => by
    unfold makeRoom
    split
    · cases r.lru <;> rfl
    · rfl
  have huse : ∀ (r : Ring) rid, (r.useBucket rid).2.redact = r.redact := fun r rid => by
    unfold useBucket
    cases r.buckets.lookup rid with
    | none => exact hroom r
    | some b => rfl
  have hbucket : ∀ (r : Ring) rid b, (r.addBucket rid b e).redact = r.redact := fun r rid b => by unfold addBucket; split <;> rfl
  unfold store
  split
  · exact hadd _
  · exact ((hbucket _ _ _).trans (huse _ _)).trans (hadd _)

/-! ## Trees of loggers -/

/-- The handlers that were derived, the one of `New` first. -/
structure Loggers where
  heap : Arrays Attr
  handlers : List Handler
  ring : Ring

def Loggers.new (opt : Options) : Loggers where
  heap := { count := 1, slots := fun _ => [] }
  handlers := [{ prebaked := { array := 0, length := 0 }, groups := [] }]
  ring := Ring.new opt

inductive Op where
  | withAttrs (logger : Nat) (attrs : List Slog.Attr)
  | withGroup (logger : Nat) (name : String)
  | handle (logger : Nat) (rid : String) (rec : Record)

def Loggers.step (grow : Nat → Nat → Nat) (scrub : String → String) (s : Loggers) : Op → Loggers
  | .withAttrs i attrs => match s.handlers[i]? with
    | none => s
    | some h =>
      let (heap, derived) := h.withAttrs grow s.heap attrs
      { s with heap, handlers := s.handlers ++ [derived] }
  | .withGroup i name => match s.handlers[i]? with
    | none => s
    | some h => { s with handlers := s.handlers ++ [h.withGroup name] }
  | .handle i rid rec => match s.handlers[i]? with
    | none => s
    | some h => { s with ring := s.ring.capture scrub rid rec (h.prebaked.contents s.heap) h.groups }

def Loggers.run (grow : Nat → Nat → Nat) (scrub : String → String) (opt : Options) (ops : List Op) : Loggers :=
  ops.foldl (Loggers.step grow scrub) (Loggers.new opt)

end Ploykit.Logring

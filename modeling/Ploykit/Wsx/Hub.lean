import Ploykit.Lib.Schedule
import Ploykit.Wsx.Client

/-!
# The hub

`join`, `leave`, `drop`, `handleControl`, `ServeWS` and `Broadcast` of `platform/wsx/hub.go`.
What runs under the hub's lock is one step, and so is each callback. The two pumps of a client
call `handleControl` and `drop`: here each of these calls is a goroutine of its own.

What the application decides (who a token is, who is a member, who may subscribe, whether the
rate allows it) is left open. Both callbacks of the relay are set.
-/

namespace Ploykit.Wsx

open Lib

structure Client where
  scopes : Finset String := ∅
  /-- Set before the client is taken out of its rooms. -/
  dropped : Bool := false
  /-- The drop has taken the client out of its rooms. -/
  removed : Bool := false
  /-- The user, where the client is authenticated. -/
  principal : Option String := none
  connWS : String := ""
  dedup : Dedup := .empty

/-- A callback: a scope, and whether it is subscribed or unsubscribed. -/
structure Callback where
  scope : String
  subscribe : Bool
  deriving DecidableEq

structure World where
  /-- The members of each room there is. -/
  rooms : String → Option (Finset Nat)
  client : Nat → Client
  conns : Int
  /-- The callbacks that a goroutine still has to make. -/
  owed : Nat → List Callback
  /-- The callbacks that have been made for a scope, the last first. -/
  made : String → List Bool

/-- What is wired. -/
structure Hub where
  authorize : Bool
  workspaceMember : Bool
  patResolve : Bool
  patPrefix : String
  capabilities : List String
  registeredScopes : List String
  relay : Bool

/-! ## Calls -/

inductive Op : Type → Type
  | joinRoom (c : Nat) (scope : String) : Op Bool
  | leaveRoom (c : Nat) (scope : String) : Op Bool
  /-- `c.dropped.CompareAndSwap(false, true)` -/
  | swapDropped (c : Nat) : Op Bool
  /-- The scopes whose rooms are empty then, in any order. -/
  | leaveRooms (c : Nat) : Op (List String)
  | onSubscribe (scope : String) : Op Unit
  | onUnsubscribe (scope : String) : Op Unit
  | addConns (n : Int) : Op Unit
  | subscribed (c : Nat) (scope : String) : Op Bool
  /-- The user and the workspace of the connection. -/
  | identity (c : Nat) : Op (Option String × String)
  | authenticate (c : Nat) (user : String) : Op Unit
  | allowSubscribe (c : Nat) : Op Bool
  | resolve (token : String) : Op (Option String)
  | isMember (user workspaceID : String) : Op Bool
  | mayJoin (user connWS kind id : String) : Op Bool
  | sendJSON (c : Nat) (frameType : String) (payload : List (String × String)) : Op Unit
  /-- The members of a room, in any order. -/
  | targets (scope : String) : Op (List Nat)
  | deliver (c : Nat) (frame : Frame) : Op Unit
  | publishOut (scope : String) (frame : Frame) : Op Unit

namespace World

variable (w : World) (c : Nat) (scope : String)

def IsIn : Prop := ∃ room, w.rooms scope = some room ∧ c ∈ room

def setClient (f : Client → Client) : World := { w with client := Function.update w.client c (f (w.client c)) }

/-- The room without the client, if anybody is left in it. -/
def without (room : Finset Nat) : Option (Finset Nat) := if room.erase c = ∅ then none else some (room.erase c)

/-- Whether the room is new, and the world in which the client is in it. -/
def join : Bool × World :=
  ((w.rooms scope).isNone,
    { w.setClient c fun cl => { cl with scopes := insert scope cl.scopes } with
      rooms := Function.update w.rooms scope (some (insert c ((w.rooms scope).getD ∅))) })

/-- The client leaves the room empty. -/
def empties : Bool := (w.rooms scope).any fun room => room.erase c = ∅

def leave : Bool × World :=
  (w.empties c scope,
    { w.setClient c fun cl => { cl with scopes := cl.scopes.erase scope } with
      rooms := Function.update w.rooms scope ((w.rooms scope).bind (without c)) })

/-- The client is taken out of the rooms of its scopes. -/
def removeAll : World :=
  { w.setClient c fun cl => { cl with removed := true } with
    rooms := fun scope => if scope ∈ (w.client c).scopes then (w.rooms scope).bind (without c) else w.rooms scope }

/-- The rooms that the client leaves empty then. -/
def emptied : Finset String := (w.client c).scopes.filter fun scope => w.empties c scope

end World

/-- What a call does to the rooms and the clients. -/
def Effect : {β : Type} → Op β → World → β → World → Prop
  | _, .joinRoom c scope, w, r, w' => (r, w') = w.join c scope
  | _, .leaveRoom c scope, w, r, w' => (r, w') = w.leave c scope
  | _, .swapDropped c, w, r, w' => r = !(w.client c).dropped ∧ w' = w.setClient c fun cl => { cl with dropped := true }
  | _, .leaveRooms c, w, r, w' => r.Nodup ∧ (∀ scope, scope ∈ r ↔ scope ∈ w.emptied c) ∧ w' = w.removeAll c
  | _, .onSubscribe _, w, _, w' => w' = w
  | _, .onUnsubscribe _, w, _, w' => w' = w
  | _, .addConns n, w, _, w' => w' = { w with conns := w.conns + n }
  | _, .subscribed c scope, w, r, w' => r = decide (scope ∈ (w.client c).scopes) ∧ w' = w
  | _, .identity c, w, r, w' => r = ((w.client c).principal, (w.client c).connWS) ∧ w' = w
  | _, .authenticate c user, w, _, w' => w' = w.setClient c fun cl => { cl with principal := some user }
  | _, .allowSubscribe _, w, _, w' => w' = w
  | _, .resolve _, w, _, w' => w' = w
  | _, .isMember _ _, w, _, w' => w' = w
  | _, .mayJoin _ _ _ _, w, _, w' => w' = w
  | _, .sendJSON _ _ _, w, _, w' => w' = w
  | _, .targets scope, w, r, w' => r.Nodup ∧ (∀ c, c ∈ r ↔ w.IsIn c scope) ∧ w' = w
  | _, .deliver c frame, w, _, w' => w' = w.setClient c fun cl => { cl with dedup := (cl.dedup.deliver frame.eventID).2 }
  | _, .publishOut _ _, w, _, w' => w' = w

/-- The callbacks that are owed after a call. -/
def owing : {β : Type} → List Callback → Op β → β → List Callback
  | _, owed, .joinRoom _ scope, created => if created then owed ++ [⟨scope, true⟩] else owed
  | _, owed, .leaveRoom _ scope, emptied => if emptied then owed ++ [⟨scope, false⟩] else owed
  | _, owed, .leaveRooms _, emptied => owed ++ emptied.map fun scope => ⟨scope, false⟩
  | _, owed, .onSubscribe _, _ => owed.tail
  | _, owed, .onUnsubscribe _, _ => owed.tail
  | _, owed, _, _ => owed

/-- The callback that a call is. -/
def announces : {β : Type} → Op β → Option Callback
  | _, .onSubscribe scope => some ⟨scope, true⟩
  | _, .onUnsubscribe scope => some ⟨scope, false⟩
  | _, _ => none

def World.announce (w : World) (i : Nat) {β : Type} (o : Op β) (r : β) : World :=
  { w with
    owed := Function.update w.owed i (owing (w.owed i) o r)
    made := match announces o with
      | some cb => Function.update w.made cb.scope (cb.subscribe :: w.made cb.scope)
      | none => w.made }

/-- One call of goroutine `i`. -/
def Step (i : Nat) {β : Type} (o : Op β) (w : World) (r : β) (w' : World) : Prop :=
  ∃ w₁, Effect o w r w₁ ∧ w' = w₁.announce i o r

def machine : Machine Op World where
  step := Step
  abort _ w := w
  env w w' := w' = w

/-! ## Programs -/

abbrev Proc := Script Op

def join (c : Nat) (scope : String) : Proc Unit := do
  if ← Script.op (.joinRoom c scope) then Script.op (.onSubscribe scope)
  else pure ()

def leave (c : Nat) (scope : String) : Proc Unit := do
  if ← Script.op (.leaveRoom c scope) then Script.op (.onUnsubscribe scope)
  else pure ()

/-- The loop over the scopes whose rooms are empty. -/
def unsubscribeAll : List String → Proc Unit
  | [] => pure ()
  | scope :: scopes => do
    Script.op (.onUnsubscribe scope)
    unsubscribeAll scopes

def drop (c : Nat) : Proc Unit := do
  if ← Script.op (.swapDropped c) then
    let emptied ← Script.op (.leaveRooms c)
    unsubscribeAll emptied
    Script.op (.addConns (-1))
  else pure ()

def broadcastTo (frame : Frame) : List Nat → Proc Unit
  | [] => pure ()
  | c :: clients => do
    Script.op (.deliver c frame)
    broadcastTo frame clients

def broadcastLocal (scope : String) (frame : Frame) : Proc Unit := do
  let targets ← Script.op (.targets scope)
  broadcastTo frame targets

namespace Hub

variable (h : Hub)

def broadcast (scope : String) (frame : Frame) : Proc Unit := do
  broadcastLocal scope frame
  if h.relay then Script.op (.publishOut scope frame) else pure ()

def joinWorkspace (c : Nat) (workspaceID : String) : Proc Bool := do
  match (← Script.op (.identity c)).1 with
  | none => pure false
  | some user =>
    if workspaceID = "" ∨ !h.workspaceMember then pure false
    else if ← Script.op (.isMember user workspaceID) then do
      join c (Wire.scopeKey Wire.scopeWorkspace workspaceID)
      pure true
    else pure false

def capabilitiesPayload : List (String × String) :=
  if h.capabilities = [] then [] else [("capabilities", ",".intercalate h.capabilities)]

/-- `ServeWS` of a connection that has been upgraded. -/
def serveWS (c : Nat) : Proc Unit := do
  Script.op (.addConns 1)
  match ← Script.op (.identity c) with
  | (none, _) => pure ()
  | (some user, connWS) => do
    let _ ← h.joinWorkspace c connWS
    join c (Wire.scopeKey Wire.scopeUser user)
    if h.capabilities = [] then pure () else Script.op (.sendJSON c Wire.connectedFrameType h.capabilitiesPayload)

def maxSubscribeIDLen : Nat := 128

def validSubscribeID (id : String) : Bool :=
  id ≠ "" && id.utf8ByteSize ≤ maxSubscribeIDLen && id.toList.all fun c => ' ' ≤ c && c ≤ '~'

def reject (c : Nat) (what : String) (payload : List (String × String)) : Proc Unit :=
  Script.op (.sendJSON c (Wire.rejectedPrefix ++ what) payload)

def confirm (c : Nat) (what : String) (payload : List (String × String)) : Proc Unit :=
  Script.op (.sendJSON c (Wire.confirmPrefix ++ what) payload)

def handleAuth (c : Nat) (cf : ControlFrame) : Proc Unit := do
  if (← Script.op (.identity c)).1.isSome then pure ()
  else if !h.patResolve ∨ !h.patPrefix.toList.isPrefixOf cf.token.toList then reject c Wire.ctrlAuth []
  else
    match ← Script.op (.resolve cf.token) with
    | none => reject c Wire.ctrlAuth []
    | some user => do
      Script.op (.authenticate c user)
      join c (Wire.scopeKey Wire.scopeUser user)
      confirm c Wire.ctrlAuth h.capabilitiesPayload

def subscribeWorkspace (c : Nat) (cf : ControlFrame) : Proc Unit := do
  if ← Script.op (.subscribed c (Wire.scopeKey Wire.scopeWorkspace cf.id)) then
    confirm c Wire.ctrlSubscribe [("scope", cf.scope)]
  else if cf.id = "" then reject c Wire.ctrlSubscribe [("scope", cf.scope)]
  else if ← h.joinWorkspace c cf.id then confirm c Wire.ctrlSubscribe [("scope", cf.scope)]
  else reject c Wire.ctrlSubscribe [("scope", cf.scope)]

def subscribeOther (c : Nat) (user connWS : String) (cf : ControlFrame) : Proc Unit := do
  if cf.scope ∉ h.registeredScopes then pure ()
  else if !validSubscribeID cf.id then reject c Wire.ctrlSubscribe [("scope", cf.scope)]
  else if ← Script.op (.subscribed c (Wire.scopeKey cf.scope cf.id)) then confirm c Wire.ctrlSubscribe [("scope", cf.scope)]
  else if !h.authorize then reject c Wire.ctrlSubscribe [("scope", cf.scope)]
  else if ← Script.op (.mayJoin user connWS cf.scope cf.id) then do
    join c (Wire.scopeKey cf.scope cf.id)
    confirm c Wire.ctrlSubscribe [("scope", cf.scope)]
  else reject c Wire.ctrlSubscribe [("scope", cf.scope)]

def handleSubscribe (c : Nat) (cf : ControlFrame) : Proc Unit := do
  match ← Script.op (.identity c) with
  | (none, _) => reject c Wire.ctrlSubscribe []
  | (some user, connWS) =>
    if ← Script.op (.allowSubscribe c) then
      if cf.scope = Wire.scopeWorkspace then h.subscribeWorkspace c cf else h.subscribeOther c user connWS cf
    else reject c Wire.ctrlSubscribe [("scope", cf.scope)]

/-- `handleControl`, of a frame that may not be one. -/
def handleControl (c : Nat) (raw : Option RawControl) : Proc Unit :=
  match raw with
  | none => reject c "control" []
  | some raw =>
    let cf := decodeControl raw
    if cf.type = Wire.ctrlAuth then h.handleAuth c cf
    else if cf.type = Wire.ctrlSubscribe then h.handleSubscribe c cf
    else if cf.type = Wire.ctrlUnsub then
      if cf.scope ≠ "" ∧ cf.id ≠ "" then leave c (Wire.scopeKey cf.scope cf.id) else pure ()
    else reject c "control" [("type", cf.type)]

end Hub

/-- What goroutines run. -/
inductive Program (h : Hub) : Proc Unit → Prop
  | serveWS (c : Nat) : Program h (h.serveWS c)
  | handleControl (c : Nat) (raw : Option RawControl) : Program h (h.handleControl c raw)
  | join (c : Nat) (scope : String) : Program h (join c scope)
  | leave (c : Nat) (scope : String) : Program h (leave c scope)
  | drop (c : Nat) : Program h (drop c)
  | broadcast (scope : String) (frame : Frame) : Program h (h.broadcast scope frame)
  | deliverRemote (scope : String) (frame : Frame) : Program h (broadcastLocal scope frame)

end Ploykit.Wsx

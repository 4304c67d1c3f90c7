import Mathlib.Data.Finset.Basic
import Mathlib.Data.List.AList

/-!
# The client of the socket

`WsClient` of `packages/client/src/ws.ts`. A socket is closed by its own event some time after
`close()`, and timers fire whenever they like. Listeners of the status run in the middle of the
calls that set it, and may call the client themselves: what is left of the call comes after.
-/

namespace Ploykit.Client

/-! ## Sockets -/

inductive ScopePrefix where
  | workspace
  | user
  | task
  | chat
  deriving DecidableEq, Repr

def ScopePrefix.name : ScopePrefix → String
  | workspace => "workspace"
  | user => "user"
  | task => "task"
  | chat => "chat"

structure Scope where
  kind : ScopePrefix
  id : String
  deriving DecidableEq, Repr

namespace Scope

/-- The key of the scope in the map of the references. -/
def key (k : Scope) : List Char := k.kind.name.toList ++ ':' :: k.id.toList

/-- What is before the first colon of a key, and what is after it. -/
def ofKey (key : List Char) : List Char × List Char := (key.takeWhile (· ≠ ':'), (key.dropWhile (· ≠ ':')).tail)

/-- The prefix and the id are read back from the key, whatever colons are in the id. -/
theorem ofKey_key (k : Scope) : ofKey k.key = (k.kind.name.toList, k.id.toList) := by
  have hall : (k.kind.name.toList.all fun c => c ≠ ':') = true := by
    cases k.kind <;> decide
  have hname : ∀ c ∈ k.kind.name.toList, decide (c ≠ ':') = true := List.all_eq_true.1 hall
  rw [ofKey, key, List.takeWhile_append_of_pos hname, List.dropWhile_append_of_pos hname, List.takeWhile_cons_of_neg (by simp),
    List.dropWhile_cons_of_neg (by simp), List.append_nil, List.tail_cons]

/-- So the scopes themselves may be the keys of the map. -/
theorem key_injective : Function.Injective key := by
  intro k k' h
  have hparts : (k.kind.name.toList, k.id.toList) = (k'.kind.name.toList, k'.id.toList) := by
    rw [← ofKey_key, h, ofKey_key]
  have hname : ∀ a b : ScopePrefix, a.name.toList = b.name.toList → a = b := by
    intro a b
    cases a <;> cases b <;> decide
  have hkind : k.kind = k'.kind := hname _ _ (Prod.ext_iff.1 hparts).1
  have hid : k.id = k'.id := String.toList_inj.1 (Prod.ext_iff.1 hparts).2
  cases k
  cases k'
  cases hkind
  cases hid
  rfl

end Scope

inductive ReadyState where
  | connecting
  | open
  | closing
  | closed
  deriving DecidableEq, Repr

structure WebSocket where
  readyState : ReadyState := .connecting
  /-- Its handlers are set. -/
  attached : Bool := true
  deriving DecidableEq, Repr

namespace WebSocket

def close (s : WebSocket) : WebSocket := if s.readyState = .closed then s else { s with readyState := .closing }

def detach (s : WebSocket) : WebSocket := { s with attached := false }

/-- It is connecting or open, and what comes over it is handled. -/
def live (s : WebSocket) : Bool := s.attached && (s.readyState = .connecting || s.readyState = .open)

end WebSocket

structure WsFrame where
  type : String
  payload : String
  eventID : String
  deriving DecidableEq, Repr

/-- The control frames that the client sends by itself. -/
inductive Control where
  | subscribe (scope : Scope)
  | unsubscribe (scope : Scope)
  | ping
  deriving DecidableEq, Repr

/-- The scopes that are subscribed once the frame has come. -/
def Control.apply (scopes : Finset Scope) : Control → Finset Scope
  | subscribe k => insert k scopes
  | unsubscribe k => scopes.erase k
  | ping => scopes

/-! ## The client and what is around it -/

inductive WsStatus where
  | idle
  | connecting
  | open
  | reconnecting
  | stopped
  deriving DecidableEq, Repr

structure WsClientOptions where
  dedupeLimit : Nat := 1000
  heartbeatMs : Int := 0

structure WsClient where
  socket : Option Nat := none
  statusValue : WsStatus := .idle
  stopped : Bool := true
  reconnectTimer : Option Nat := none
  scopeRefs : AList fun _ : Scope => Nat := ∅
  seenIds : Finset String := ∅
  seenOrder : List String := []
  heartbeatTimer : Option Nat := none
  lastActivityAt : Int := 0

/-- What is left of a call while the listeners are told of the status. -/
inductive Rest where
  /-- The rest of `openSocket`. -/
  | create
  /-- The rest of the `onopen` of a socket. -/
  | opened (i : Nat)
  /-- The rest of `scheduleReconnect`. -/
  | retry
  deriving DecidableEq, Repr

structure World where
  client : WsClient := {}
  sockets : Nat → Option WebSocket := fun _ => none
  nextSocket : Nat := 0
  /-- The scopes that the frames sent over a socket have subscribed. -/
  subscribed : Nat → Finset Scope := fun _ => ∅
  /-- The timers that have been set, and neither fired nor cleared. -/
  timeouts : List Nat := []
  intervals : List Nat := []
  nextTimer : Nat := 0
  /-- The calls that are in a listener, the innermost first. -/
  rests : List Rest := []
  /-- Every subscription, and whether its disposer has been called. -/
  subscriptions : List (Scope × Bool) := []
  /-- The frames that were given to the handlers, the last first. -/
  dispatched : List WsFrame := []

namespace World

/-- The number of subscriptions of the scope whose disposers have not been called. -/
def refs (w : World) (k : Scope) : Nat := w.subscriptions.countP fun t => t.1 = k && !t.2

/-- The ids of the events that were given to the handlers, the last first. -/
def dispatchedIds (w : World) : List String := (w.dispatched.map WsFrame.eventID).filter (· ≠ "")

def modifySocket (i : Nat) (f : WebSocket → WebSocket) (w : World) : World :=
  { w with sockets := Function.update w.sockets i ((w.sockets i).map f) }

def setSocket (socket : Option Nat) (w : World) : World := { w with client := { w.client with socket := socket } }

/-! ## Parts of the calls -/

/-- The socket that `send` writes to. -/
def receiver (w : World) : Option Nat := w.client.socket.filter fun i => (w.sockets i).any fun s => s.readyState = .open

def send (c : Control) (w : World) : World :=
  match w.receiver with
  | some i => { w with subscribed := Function.update w.subscribed i (c.apply (w.subscribed i)) }
  | none => w

def stopHeartbeat (w : World) : World :=
  match w.client.heartbeatTimer with
  | some id => { w with intervals := w.intervals.filter (· ≠ id), client := { w.client with heartbeatTimer := none } }
  | none => w

def clearReconnect (w : World) : World :=
  match w.client.reconnectTimer with
  | some id => { w with timeouts := w.timeouts.filter (· ≠ id), client := { w.client with reconnectTimer := none } }
  | none => w

def closeSocket (w : World) : World :=
  match w.client.socket with
  | some i => w.modifySocket i .close
  | none => w

/-- The socket is dropped, its handlers are unset, and it is closed. -/
def discardSocket (w : World) : World :=
  match w.client.socket with
  | some i => (w.setSocket none).modifySocket i fun s => s.detach.close
  | none => w

def startHeartbeat (opts : WsClientOptions) (now : Int) (w : World) : World :=
  let w := w.stopHeartbeat
  if opts.heartbeatMs ≤ 0 then w
  else
    { w with
      client := { w.client with lastActivityAt := now, heartbeatTimer := some w.nextTimer }
      intervals := w.nextTimer :: w.intervals
      nextTimer := w.nextTimer + 1 }

/-- The loop of `onopen` over the scopes. -/
def resubscribe (w : World) : World := w.client.scopeRefs.keys.foldl (fun w k => w.send (.subscribe k)) w

/-- What is done after the listeners have been told. -/
def finish (opts : WsClientOptions) (now : Int) (w : World) : Rest → World
  | .create =>
    { w with
      client := { w.client with socket := some w.nextSocket }
      sockets := Function.update w.sockets w.nextSocket (some {})
      nextSocket := w.nextSocket + 1 }
  | .opened _ => (w.startHeartbeat opts now).resubscribe
  | .retry =>
    { w with
      client := { w.client with reconnectTimer := some w.nextTimer }
      timeouts := w.nextTimer :: w.timeouts
      nextTimer := w.nextTimer + 1 }

/-- The rest of a call waits for the listeners. -/
def push (r : Rest) (w : World) : World := { w with rests := r :: w.rests }

/-- `setStatus`, with what is left of the call. -/
def setStatus (opts : WsClientOptions) (now : Int) (status : WsStatus) (r : Rest) (w : World) : World :=
  if w.client.statusValue = status then w.finish opts now r
  else ({ w with client := { w.client with statusValue := status } }).push r

def openSocket (opts : WsClientOptions) (now : Int) (nextStatus : WsStatus) (w : World) : World :=
  w.setStatus opts now nextStatus .create

def scheduleReconnect (opts : WsClientOptions) (now : Int) (w : World) : World :=
  (w.setSocket none).stopHeartbeat.setStatus opts now .reconnecting .retry

/-! ## Calls -/

def connect (opts : WsClientOptions) (now : Int) (w : World) : World :=
  if !w.client.stopped then w
  else openSocket opts now .connecting { w with client := { w.client with stopped := false } }

def close (w : World) : World :=
  let w := { w with client := { w.client with stopped := true } }
  let w := (w.stopHeartbeat.clearReconnect.closeSocket).setSocket none
  { w with client := { w.client with statusValue := .stopped } }

def reconnect (opts : WsClientOptions) (now : Int) (w : World) : World :=
  if w.client.stopped then w
  else openSocket opts now .connecting w.stopHeartbeat.clearReconnect.discardSocket

def subscribe (k : Scope) (w : World) : World :=
  let refs := (w.client.scopeRefs.lookup k).getD 0 + 1
  let w :=
    { w with
      client := { w.client with scopeRefs := w.client.scopeRefs.insert k refs }
      subscriptions := w.subscriptions ++ [(k, false)] }
  if refs = 1 then w.send (.subscribe k) else w

/-- A call of the disposer that the `t`-th subscription has returned. -/
def dispose (t : Nat) (k : Scope) (w : World) : World :=
  let left := (w.client.scopeRefs.lookup k).getD 0 - 1
  let w := { w with subscriptions := w.subscriptions.set t (k, true) }
  if left ≤ 0 then
    send (.unsubscribe k) { w with client := { w.client with scopeRefs := w.client.scopeRefs.erase k } }
  else { w with client := { w.client with scopeRefs := w.client.scopeRefs.insert k left } }

/-! ## Events -/

/-- The part of `dispatch` that remembers an id that is new. -/
def remember (opts : WsClientOptions) (id : String) (w : World) : World :=
  let seenIds := insert id w.client.seenIds
  let seenOrder := w.client.seenOrder ++ [id]
  if seenOrder.length > opts.dedupeLimit then
    match seenOrder with
    | evicted :: seenOrder => { w with client := { w.client with seenIds := seenIds.erase evicted, seenOrder := seenOrder } }
    | [] => { w with client := { w.client with seenIds := seenIds, seenOrder := [] } }
  else { w with client := { w.client with seenIds := seenIds, seenOrder := seenOrder } }

def deliver (frame : WsFrame) (w : World) : World := { w with dispatched := frame :: w.dispatched }

def dispatch (opts : WsClientOptions) (frame : WsFrame) (w : World) : World :=
  if frame.eventID = "" then w.deliver frame
  else if frame.eventID ∈ w.client.seenIds then w
  else (w.remember opts frame.eventID).deliver frame

/-- The handler of messages. There is no frame where the message cannot be parsed. -/
def onmessage (opts : WsClientOptions) (now : Int) (frame : Option WsFrame) (w : World) : World :=
  let w := { w with client := { w.client with lastActivityAt := now } }
  match frame with
  | some frame => w.dispatch opts frame
  | none => w

def onclose (opts : WsClientOptions) (now : Int) (w : World) : World :=
  if w.client.stopped then w else w.scheduleReconnect opts now

/-- The callback of the reconnect timer. -/
def onTimeout (opts : WsClientOptions) (now : Int) (w : World) : World :=
  let w := { w with client := { w.client with reconnectTimer := none } }
  if !w.client.stopped then w.openSocket opts now .reconnecting else w

/-- The callback of the heartbeat. -/
def onTick (opts : WsClientOptions) (now : Int) (w : World) : World :=
  if now - w.client.lastActivityAt ≥ opts.heartbeatMs then
    w.stopHeartbeat.discardSocket.scheduleReconnect opts now
  else w.send .ping

end World

/-! ## Steps -/

inductive Action where
  | connect
  | close
  | reconnect
  | subscribe (k : Scope)
  | dispose (t : Nat)
  /-- The listeners of the innermost call return. -/
  | told
  | opened (i : Nat)
  | message (i : Nat) (frame : Option WsFrame)
  | error (i : Nat)
  /-- The other side begins to close the socket. -/
  | closing (i : Nat)
  | closed (i : Nat)
  | timeout (id : Nat)
  | tick (id : Nat)

/-- A handler of the socket, if it has them. -/
def World.handle (i : Nat) (f : World → World) (w : World) : World := if (w.sockets i).any fun s => s.attached then f w else w

/-- What an action does at a time. Calls may come at any time, events where no call is in a listener. -/
def step (opts : WsClientOptions) (now : Int) (w : World) : Action → Option World
  | .connect => some (w.connect opts now)
  | .close => some w.close
  | .reconnect => some (w.reconnect opts now)
  | .subscribe k => some (w.subscribe k)
  | .dispose t => (w.subscriptions[t]?).map fun s => w.dispose t s.1
  | .told =>
    match w.rests with
    | r :: rests => some ({ w with rests := rests }.finish opts now r)
    | [] => none
  | .opened i =>
    if w.rests = [] ∧ (w.sockets i).map WebSocket.readyState = some .connecting then
      some ((w.modifySocket i fun s => { s with readyState := .open }).handle i fun w => w.setStatus opts now .open (.opened i))
    else none
  | .message i frame =>
    if w.rests = [] ∧ (w.sockets i).map WebSocket.readyState = some .open then some (w.handle i (World.onmessage opts now frame)) else none
  | .error i => if w.rests = [] ∧ (w.sockets i).isSome then some w else none
  | .closing i =>
    if w.rests = [] ∧ (w.sockets i).map WebSocket.readyState = some .open then some (w.modifySocket i .close) else none
  | .closed i =>
    if w.rests = [] ∧ (w.sockets i).any fun s => s.readyState ≠ .closed then
      some ((w.modifySocket i fun s => { s with readyState := .closed }).handle i (World.onclose opts now))
    else none
  | .timeout id =>
    if w.rests = [] ∧ id ∈ w.timeouts then some ({ w with timeouts := w.timeouts.filter (· ≠ id) }.onTimeout opts now) else none
  | .tick id => if w.rests = [] ∧ id ∈ w.intervals then some (w.onTick opts now) else none

/-- The worlds that actions lead to, each of them one that `ok` lets through. -/
inductive Reaches (opts : WsClientOptions) (ok : World → Action → Prop) : World → Prop
  | start : Reaches opts ok {}
  | step {w w' : World} {a : Action} {now : Int} (hw : Reaches opts ok w) (hok : ok w a) (hstep : step opts now w a = some w') :
    Reaches opts ok w'

end Ploykit.Client

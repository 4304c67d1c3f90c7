import Ploykit.Lib.Script
import Ploykit.Webhooks.Store

/-!
# The webhook service

`webhooks/app` over the methods of the repository. A statement that fails answers with
an error, and so may everything that the service asks of the outside. The hooks and
the log lines are left out.
-/

namespace Ploykit.Webhooks

open Lib

/-! ## Calls -/

/-- What is sent to the receiver. -/
structure Request where
  url : String
  signature : String
  signatureOld : Option String
  timestamp : Time
  eventID : String
  eventType : String
  deliveryID : String
  payload : String
  deriving DecidableEq, Repr

/-- The answer of the receiver; `aborts` is the header that asks for no more attempts. -/
structure Response where
  statusCode : Int
  aborts : Bool := false
  deriving DecidableEq, Repr

def Response.succeeded (resp : Response) : Bool := 200 ≤ resp.statusCode ∧ resp.statusCode < 300

inductive Op : Type → Type 1
  | now : Op Time
  /-- `jitterBackoff` -/
  | jitter (d : Duration) : Op Duration
  | mintSecret : Op (Except Err String)
  | mintEventID : Op String
  | sealSecret (plain : String) : Op (Except Err String)
  | validateTarget (url : String) : Op (Except String Unit)
  | newRequest (url : String) : Op (Except String Unit)
  | post (req : Request) : Op (Except String Response)
  | stmt {β : Type} (s : Stmt β) : Op (Except Err β)

abbrev Svc := Script Op

def exec {β : Type} (s : Stmt β) : Svc (Except Err β) := Script.op (.stmt s)

/-- `if err != nil { return err }` -/
def orReturn {α β : Type} (r : Except Err α) (k : α → Svc (Except Err β)) : Svc (Except Err β) :=
  match r with
  | .ok a => k a
  | .error err => return .error err

/-! ## The repository -/

namespace Repo

def claimPending (batchSize : Nat) : Svc (Except Err (List PendingDelivery)) := do
  orReturn (← exec .finalizeOrphans) fun _ => exec (.claimPending batchSize)

def markDelivered (deliveryID : String) (statusCode : Int) (now : Time) : Svc (Except Err Unit) := do
  orReturn (← exec (.markDelivered deliveryID statusCode now)) fun _ => exec (.clearFirstFailure deliveryID)

def markRetry (deliveryID : String) (statusCode : Int) (errMsg : String) (nextAt : Time) (dead : Bool) :
    Svc (Except Err Unit) := do
  orReturn (← exec (.markRetry deliveryID statusCode errMsg nextAt dead)) fun _ => exec (.setFirstFailure deliveryID)

def firstFailureAt (subscriptionID : String) : Svc (Except Err (Option Time)) := do
  orReturn (← exec (.firstFailureAt subscriptionID)) fun
    | none => return .error .notFound
    | some ff => return .ok ff

/-- A statement that has to find the row it is about. -/
def affecting (s : Stmt Nat) : Svc (Except Err Unit) := do
  orReturn (← exec s) fun n => return if n = 0 then .error .notFound else .ok ()

/-- `Redeliver`, and `AdminRedeliver` without a workspace, over the rounds that are left. -/
def redeliver (workspaceID : Option String) (deliveryID : String) : Nat → Svc (Except Err DeliveryRow)
  | 0 => return .error .notFound
  | rounds + 1 => do
    orReturn (← exec (.redeliver workspaceID deliveryID)) fun
      | some d => return .ok d
      | none => do
        orReturn (← exec (.redeliverSource workspaceID deliveryID)) fun
          | none => return .error .notFound
          | some (sub, eventID) => do
            orReturn (← exec (.pendingFor sub eventID)) fun
              | some d => return .ok d
              | none => redeliver workspaceID deliveryID rounds

end Repo

/-! ## Signatures -/

/-- What the service is built with: the event types, and the parts of its secrets. -/
structure Service where
  catalog : List String
  unsealSecret : String → Except String String
  hmac : String → String → String

def second : Duration := 1000000000
def minute : Duration := 60 * second
def hour : Duration := 60 * minute

def oldSecretTTL : Duration := 24 * hour

def retryBackoff : List Duration := [1 * minute, 5 * minute, 30 * minute, 2 * hour, 6 * hour]

def autoDisableWindow : Duration := 5 * 24 * hour

namespace Service

variable (svc : Service)

/-- `whsign.Sign` -/
def sign (secret : String) (timestamp : Time) (body : String) : String :=
  "sha256=" ++ svc.hmac secret (toString (timestamp / second) ++ "." ++ body)

def verifySign (secret : String) (timestamp : Time) (body signature : String) : Bool :=
  svc.sign secret timestamp body = signature

/-- The request for a delivery whose secrets are plain. -/
def request (d : PendingDelivery) (now : Time) : Request where
  url := d.url
  signature := svc.sign d.secret now d.payload
  signatureOld := if d.oldPlain ≠ "" then some (svc.sign d.oldPlain now d.payload) else none
  timestamp := now
  eventID := d.eventID
  eventType := d.eventType
  deliveryID := d.deliveryID
  payload := d.payload

end Service

/-! ## Deliveries -/

def setSubscriptionActive (cause : Cause) (workspaceID subscriptionID : String) (active : Bool) :
    Svc (Except Err Unit) :=
  Repo.affecting (.setSubscriptionActive cause workspaceID subscriptionID active)

def maybeAutoDisable (d : PendingDelivery) : Svc Unit := do
  match ← Repo.firstFailureAt d.subscriptionID with
  | .error _ => return ()
  | .ok none => return ()
  | .ok (some ff) =>
    let now ← Script.op .now
    if now - ff < autoDisableWindow then return ()
    else
      let _ ← setSubscriptionActive .failures d.workspaceID d.subscriptionID false
      return ()

/-- The service's own `markRetry`. -/
def markRetry (d : PendingDelivery) (statusCode : Int) (errMsg : String) (nextAt : Time) (dead : Bool) : Svc Unit := do
  let _ ← Repo.markRetry d.deliveryID statusCode errMsg nextAt dead
  if dead then maybeAutoDisable d else return ()

/-- The backoff of the last attempt, by the table. -/
def backoff (attempts : Int) : Duration :=
  let idx := max 0 (min (attempts - 1) (retryBackoff.length - 1))
  retryBackoff.getD idx.toNat 0

/-- `retryPlan`, and the mark with its answer. -/
def markPlanned (d : PendingDelivery) (now : Time) (statusCode : Int) (errMsg : String) : Svc Unit := do
  let wait ← Script.op (.jitter (backoff d.attempts))
  markRetry d statusCode errMsg (now + wait) (retryBackoff.length < d.attempts)

namespace Service

variable (svc : Service)

def deliverOne (d : PendingDelivery) : Svc Unit := do
  let now ← Script.op .now
  match ← Script.op (.validateTarget d.url) with
  | .error err => markRetry d 0 ("target rejected: " ++ err) now true
  | .ok () =>
    match ← Script.op (.newRequest d.url) with
    | .error err => markPlanned d now 0 err
    | .ok () =>
      match ← Script.op (.post (svc.request d now)) with
      | .error err => markPlanned d now 0 err
      | .ok resp =>
        if resp.succeeded then do
          let _ ← Repo.markDelivered d.deliveryID resp.statusCode now
          return ()
        else if resp.aborts then markRetry d resp.statusCode "receiver requested abort" now true
        else markPlanned d now resp.statusCode ("HTTP " ++ toString resp.statusCode)

/-- The secret before the last rotation, while it still signs. -/
def oldPlain (d : PendingDelivery) : Svc String :=
  match d.oldExpiresAt with
  | none => return ""
  | some expiresAt =>
    if d.oldSealed = "" then return ""
    else do
      let now ← Script.op .now
      if now < expiresAt then
        match svc.unsealSecret d.oldSealed with
        | .ok old => return old
        | .error _ => return ""
      else return ""

/-- One round of the loop of `DeliverPending`. -/
def deliverClaimed (d : PendingDelivery) : Svc Unit :=
  match svc.unsealSecret d.secret with
  | .error err => do
    let now ← Script.op .now
    markPlanned d now 0 ("secret unseal failed: " ++ err)
  | .ok secret => do
    let old ← svc.oldPlain d
    svc.deliverOne { d with secret := secret, oldPlain := old }

def deliverAll : List PendingDelivery → Svc Unit
  | [] => return ()
  | d :: pending => do
    svc.deliverClaimed d
    deliverAll pending

def deliverPending (batchSize : Nat) : Svc Unit := do
  match ← Repo.claimPending batchSize with
  | .error _ => return ()
  | .ok pending => svc.deliverAll pending

/-! ## Subscriptions and events -/

def createSubscription (workspaceID url : String) (eventTypes : List String) :
    Svc (Except Err (SubscriptionRow × String)) := do
  match ← Script.op (.validateTarget url) with
  | .error err => return .error (.validation err)
  | .ok () =>
    match eventTypes.find? fun et => et ∉ svc.catalog with
    | some et => return .error (.validation ("unknown event type: " ++ et))
    | none => do
      orReturn (← Script.op .mintSecret) fun secret => do
        orReturn (← Script.op (.sealSecret secret)) fun sealed => do
          orReturn (← exec (.createSubscription workspaceID eventTypes url sealed)) fun sub => return .ok (sub, secret)

def deleteSubscription (workspaceID id : String) : Svc (Except Err Unit) :=
  Repo.affecting (.deleteSubscription workspaceID id)

def rotateSecret (workspaceID subscriptionID : String) : Svc (Except Err String) := do
  orReturn (← Script.op .mintSecret) fun secret => do
    orReturn (← Script.op (.sealSecret secret)) fun sealed => do
      let now ← Script.op .now
      orReturn (← Repo.affecting (.rotateSecret workspaceID subscriptionID sealed (now + oldSecretTTL))) fun _ =>
        return .ok secret

def ping (workspaceID subscriptionID : String) : Svc (Except Err Unit) := do
  orReturn (← exec (.getSubscription workspaceID subscriptionID)) fun
    | none => return .error .notFound
    | some sub =>
      if ¬ sub.isActive then return .error (.conflict "subscription is paused")
      else do
        let eventID ← Script.op .mintEventID
        Repo.affecting (.enqueuePing workspaceID subscriptionID eventID)

def emit (workspaceID : String) (event : OutboundEvent) : Svc (Except Err Nat) :=
  if event.id = "" then
    return .error (.text ("webhooks: emit: event \"" ++ event.type ++
      "\" has empty ID — receivers dedupe on X-Event-Id; pass the bus event's idempotency key"))
  else if event.type ∉ svc.catalog then return .error (.text ("event type not registered: " ++ event.type))
  else exec (.emitForEvent workspaceID event)

/-! ## Programs -/

/-- What sessions run: delivery rounds, and what members, operators and the product ask for. -/
inductive Program : Svc Unit → Prop
  | deliverPending (batchSize : Nat) : Program (svc.deliverPending batchSize)
  | createSubscription (workspaceID url : String) (eventTypes : List String) :
    Program (svc.createSubscription workspaceID url eventTypes >>= fun _ => return ())
  | deleteSubscription (workspaceID id : String) : Program (deleteSubscription workspaceID id >>= fun _ => return ())
  | setSubscriptionActive (workspaceID id : String) (active : Bool) :
    Program (setSubscriptionActive .request workspaceID id active >>= fun _ => return ())
  | rotateSecret (workspaceID id : String) : Program (rotateSecret workspaceID id >>= fun _ => return ())
  | ping (workspaceID id : String) : Program (ping workspaceID id >>= fun _ => return ())
  | emit (workspaceID : String) (event : OutboundEvent) : Program (svc.emit workspaceID event >>= fun _ => return ())
  | redeliver (workspaceID : Option String) (deliveryID : String) :
    Program (Repo.redeliver workspaceID deliveryID 2 >>= fun _ => return ())

end Service

end Ploykit.Webhooks

import Ploykit.Lib.Keyed

/-!
# The webhook store

The statements of `webhooks/adapters/pgrepo`, each of which commits on its own. What
a statement takes from outside is a `Choice`: the rows that other sessions hold
locked at the moment, the order of what it returns, and the ids that it draws.
-/

namespace Ploykit.Webhooks

open Lib

/-- Nanoseconds. -/
abbrev Time := Int

abbrev Duration := Int

/-! ## Rows -/

inductive DeliveryStatus where
  | pending
  | delivered
  | dead
  deriving DecidableEq, Repr

structure SubscriptionRow where
  id : String
  workspaceID : String
  eventTypes : List String
  url : String
  secret : String
  isActive : Bool
  oldSecret : Option String := none
  oldSecretExpiresAt : Option Time := none
  firstFailureAt : Option Time := none
  deriving DecidableEq, Repr

structure DeliveryRow where
  id : String
  subscriptionID : Option String
  workspaceID : String
  eventID : String
  eventType : String
  payload : String
  status : DeliveryStatus := .pending
  attempts : Int := 0
  nextAttemptAt : Time
  lastAttemptAt : Option Time := none
  lastStatusCode : Option Int := none
  lastError : Option String := none
  deliveredAt : Option Time := none
  deriving DecidableEq, Repr

structure Db where
  subscriptions : Keyed SubscriptionRow.id
  deliveries : Keyed DeliveryRow.id

namespace Db

def subscription (db : Db) (id : String) : Option SubscriptionRow := db.subscriptions.get id

def delivery (db : Db) (id : String) : Option DeliveryRow := db.deliveries.get id

/-- The subscription of a delivery, if it has not been deleted. -/
def subscriptionOf (db : Db) (deliveryID : String) : Option String :=
  (db.delivery deliveryID).bind DeliveryRow.subscriptionID

/-- Another row is pending for the event; `uq_webhook_delivery` allows only one. -/
def pendingClash (db : Db) (row : DeliveryRow) : Bool :=
  row.subscriptionID.isSome ∧ db.deliveries.rows.any fun d =>
    d.id ≠ row.id ∧ d.status = .pending ∧ d.subscriptionID = row.subscriptionID ∧ d.eventID = row.eventID

def updateDelivery (db : Db) (ids : List String) (f : DeliveryRow → DeliveryRow)
    (hf : ∀ d, (f d).id = d.id) : Db :=
  { db with deliveries := db.deliveries.update ids f hf }

def updateSubscription (db : Db) (id : String) (f : SubscriptionRow → SubscriptionRow)
    (hf : ∀ s, (f s).id = s.id) : Db :=
  { db with subscriptions := db.subscriptions.update [id] f hf }

/-- The subscription of the workspace. -/
def ownSubscription (db : Db) (workspaceID id : String) : Option SubscriptionRow :=
  (db.subscription id).filter fun s => s.workspaceID = workspaceID

end Db

/-! ## What the statements pass on -/

inductive Err where
  | store (msg : String)
  | notFound
  | unavailable (msg : String)
  | validation (msg : String)
  | conflict (msg : String)
  | text (msg : String)
  deriving DecidableEq, Repr

structure PendingDelivery where
  deliveryID : String
  subscriptionID : String
  workspaceID : String
  url : String
  secret : String
  eventID : String
  eventType : String
  payload : String
  attempts : Int
  oldSealed : String
  oldExpiresAt : Option Time
  oldPlain : String := ""
  deriving DecidableEq, Repr

structure OutboundEvent where
  id : String
  type : String
  payload : String
  deriving DecidableEq, Repr

/-- `INSERT .. ON CONFLICT DO NOTHING`, with the row if it has been inserted. Only the event is
asked for a conflict, not the id. -/
def Db.insertDelivery (db : Db) (row : DeliveryRow) : Except Err (Option DeliveryRow × Db) :=
  if db.pendingClash row then .ok (none, db)
  else if h : db.deliveries.get row.id = none then
    .ok (some row, { db with deliveries := db.deliveries.insert row h })
  else .error (.store "webhook_delivery_pkey")

/-- Who makes a subscription active or inactive. The store does not look at it. -/
inductive Cause where
  | request
  | failures
  deriving DecidableEq, Repr

inductive Stmt : Type → Type
  | finalizeOrphans : Stmt Unit
  | claimPending (batchSize : Nat) : Stmt (List PendingDelivery)
  | markDelivered (deliveryID : String) (statusCode : Int) (now : Time) : Stmt Unit
  | clearFirstFailure (deliveryID : String) : Stmt Unit
  | markRetry (deliveryID : String) (statusCode : Int) (errMsg : String) (nextAt : Time) (dead : Bool) : Stmt Unit
  | setFirstFailure (deliveryID : String) : Stmt Unit
  | firstFailureAt (subscriptionID : String) : Stmt (Option (Option Time))
  | setSubscriptionActive (cause : Cause) (workspaceID id : String) (active : Bool) : Stmt Nat
  | rotateSecret (workspaceID subscriptionID newSealed : String) (oldExpiresAt : Time) : Stmt Nat
  | getSubscription (workspaceID id : String) : Stmt (Option SubscriptionRow)
  | createSubscription (workspaceID : String) (eventTypes : List String) (url secret : String) : Stmt SubscriptionRow
  | deleteSubscription (workspaceID id : String) : Stmt Nat
  | emitForEvent (workspaceID : String) (event : OutboundEvent) : Stmt Nat
  | enqueuePing (workspaceID subscriptionID eventID : String) : Stmt Nat
  /-- Without a workspace it is the operator's. -/
  | redeliver (workspaceID : Option String) (deliveryID : String) : Stmt (Option DeliveryRow)
  | redeliverSource (workspaceID : Option String) (deliveryID : String) : Stmt (Option (Option String × String))
  | pendingFor (subscriptionID : Option String) (eventID : String) : Stmt (Option DeliveryRow)

/-- What a statement takes from outside. -/
structure Choice where
  skipped : String → Bool := fun _ => false
  newID : String → String := id
  order : List PendingDelivery → List PendingDelivery := id
  order_perm : ∀ l, (order l).Perm l := by exact fun l => .refl l

/-! ## Claims -/

/-- The delivery waits for an attempt now. -/
def Db.due (db : Db) (now : Time) (d : DeliveryRow) : Bool :=
  d.status = .pending ∧ d.nextAttemptAt ≤ now ∧
    ∃ s ∈ d.subscriptionID.bind db.subscription, s.isActive

/-- `FOR UPDATE SKIP LOCKED`, in the order of the next attempts. -/
def Db.claimed (db : Db) (c : Choice) (now : Time) (batchSize : Nat) : List DeliveryRow :=
  ((db.deliveries.rows.filter fun d => db.due now d ∧ ¬ c.skipped d.id).insertionSort
    fun a b => a.nextAttemptAt ≤ b.nextAttemptAt).take batchSize

def DeliveryRow.claim (now : Time) (d : DeliveryRow) : DeliveryRow :=
  { d with attempts := d.attempts + 1, lastAttemptAt := some now }

/-- A claimed row as it is returned, with what its subscription has. -/
def Db.pendingDelivery (db : Db) (d : DeliveryRow) : Option PendingDelivery :=
  (d.subscriptionID.bind db.subscription).map fun s =>
    { deliveryID := d.id
      subscriptionID := s.id
      workspaceID := s.workspaceID
      url := s.url
      secret := s.secret
      eventID := d.eventID
      eventType := d.eventType
      payload := d.payload
      attempts := d.attempts + 1
      oldSealed := s.oldSecret.getD ""
      oldExpiresAt := s.oldSecretExpiresAt }

/-! ## The other rows that statements write -/

def Db.orphans (db : Db) : List DeliveryRow :=
  db.deliveries.rows.filter fun d => d.status = .pending ∧ (d.subscriptionID.bind db.subscription).isNone

def DeliveryRow.orphan (now : Time) (d : DeliveryRow) : DeliveryRow :=
  { d with status := .dead, lastError := some "orphaned: subscription deleted", lastAttemptAt := some now }

def DeliveryRow.deliver (statusCode : Int) (now : Time) (d : DeliveryRow) : DeliveryRow :=
  { d with status := .delivered, deliveredAt := some now, lastStatusCode := some statusCode, lastAttemptAt := some now }

def DeliveryRow.retry (statusCode : Int) (errMsg : String) (nextAt : Time) (dead : Bool) (now : Time)
    (d : DeliveryRow) : DeliveryRow :=
  { d with
    status := if dead then .dead else .pending
    nextAttemptAt := nextAt
    lastStatusCode := some statusCode
    lastError := some errMsg
    lastAttemptAt := some now }

/-- A copy of a delivery that waits for its first attempt. -/
def DeliveryRow.again (newID : String) (now : Time) (d : DeliveryRow) : DeliveryRow where
  id := newID
  subscriptionID := d.subscriptionID
  workspaceID := d.workspaceID
  eventID := d.eventID
  eventType := d.eventType
  payload := d.payload
  nextAttemptAt := now

def SubscriptionRow.deliveryOf (newID eventID eventType payload : String) (now : Time) (s : SubscriptionRow) :
    DeliveryRow where
  id := newID
  subscriptionID := some s.id
  workspaceID := s.workspaceID
  eventID := eventID
  eventType := eventType
  payload := payload
  nextAttemptAt := now

def SubscriptionRow.rotate (newSealed : String) (oldExpiresAt : Time) (s : SubscriptionRow) : SubscriptionRow :=
  { s with oldSecret := some s.secret, oldSecretExpiresAt := some oldExpiresAt, secret := newSealed }

/-- One delivery for each subscription, with how many there are. -/
def Db.emit (db : Db) (c : Choice) (now : Time) (event : OutboundEvent) : List SubscriptionRow → Except Err (Nat × Db)
  | [] => .ok (0, db)
  | s :: subs => do
    let (row, db') ← db.insertDelivery (s.deliveryOf (c.newID s.id) event.id event.type event.payload now)
    let (n, db'') ← db'.emit c now event subs
    return (n + row.toList.length, db'')

section insert

variable {db db' db'' : Db} {row : DeliveryRow} {r : Option DeliveryRow}

theorem insertDelivery_ok (h : db.insertDelivery row = .ok (r, db')) :
    (r = none ∧ db.pendingClash row ∧ db' = db) ∨
      ∃ hid, r = some row ∧ db.pendingClash row = false ∧ db' = { db with deliveries := db.deliveries.insert row hid } := by
  unfold Db.insertDelivery at h
  split at h
  · rename_i hclash
    cases h
    exact .inl ⟨rfl, hclash, rfl⟩
  · rename_i hfree
    split at h
    · rename_i hid
      cases h
      exact .inr ⟨hid, rfl, Bool.eq_false_iff.2 hfree, rfl⟩
    · cases h

variable {c : Choice} {now : Time} {event : OutboundEvent} {s : SubscriptionRow} {subs : List SubscriptionRow} {n : Nat}

theorem emit_cons (h : db.emit c now event (s :: subs) = .ok (n, db'')) : ∃ r db' m,
    db.insertDelivery (s.deliveryOf (c.newID s.id) event.id event.type event.payload now) = .ok (r, db') ∧
      db'.emit c now event subs = .ok (m, db'') ∧ n = m + r.toList.length := by
  simp only [Db.emit] at h
  cases hins : db.insertDelivery (s.deliveryOf (c.newID s.id) event.id event.type event.payload now) with
  | error err =>
    rw [hins] at h
    cases h
  | ok x =>
    obtain ⟨r, db'⟩ := x
    rw [hins] at h
    cases hemit : db'.emit c now event subs with
    | error err =>
      simp only [bind, Except.bind, hemit] at h
      cases h
    | ok y =>
      obtain ⟨m, db₂⟩ := y
      simp only [bind, Except.bind, hemit, pure, Except.pure] at h
      cases h
      exact ⟨r, db', m, rfl, hemit, rfl⟩

/-- What an insertion keeps, an emission keeps. -/
theorem emit_keeps {I : Db → Prop} (hinsert : ∀ db row r db', db.insertDelivery row = .ok (r, db') → I db → I db')
    (h : db.emit c now event subs = .ok (n, db')) (hI : I db) : I db' := by
  induction subs generalizing db n with
  | nil =>
    cases h
    exact hI
  | cons s subs ih =>
    obtain ⟨r, db₁, m, hins, hemit, -⟩ := emit_cons h
    exact ih hemit (hinsert _ _ _ _ hins hI)

end insert

/-- The delivery that is to be sent again, if the workspace may see it. -/
def Db.source (db : Db) (workspaceID : Option String) (deliveryID : String) : Option DeliveryRow :=
  (db.delivery deliveryID).filter fun d =>
    match workspaceID with
    | none => true
    | some ws => (d.subscriptionID.bind (db.ownSubscription ws)).isSome

/-! ## Statements -/

/-- What a statement answers and leaves, at the time of the database. -/
def Stmt.run (c : Choice) (now : Time) : {β : Type} → Stmt β → Db → Except Err (β × Db)
  | _, .finalizeOrphans, db =>
    .ok ((), db.updateDelivery (db.orphans.map DeliveryRow.id) (DeliveryRow.orphan now) fun _ => rfl)
  | _, .claimPending batchSize, db =>
    let rows := db.claimed c now batchSize
    .ok (c.order (rows.filterMap db.pendingDelivery),
      db.updateDelivery (rows.map DeliveryRow.id) (DeliveryRow.claim now) fun _ => rfl)
  | _, .markDelivered deliveryID statusCode at', db =>
    .ok ((), db.updateDelivery [deliveryID] (DeliveryRow.deliver statusCode at') fun _ => rfl)
  | _, .clearFirstFailure deliveryID, db =>
    match db.subscriptionOf deliveryID with
    | none => .ok ((), db)
    | some sub => .ok ((), db.updateSubscription sub (fun s => { s with firstFailureAt := none }) fun _ => rfl)
  | _, .markRetry deliveryID statusCode errMsg nextAt dead, db =>
    if ¬ dead ∧ ∃ d ∈ db.delivery deliveryID, db.pendingClash d then .error (.store "uq_webhook_delivery")
    else .ok ((), db.updateDelivery [deliveryID] (DeliveryRow.retry statusCode errMsg nextAt dead now) fun _ => rfl)
  | _, .setFirstFailure deliveryID, db =>
    match db.subscriptionOf deliveryID with
    | none => .ok ((), db)
    | some sub => .ok ((), db.updateSubscription sub
        (fun s => { s with firstFailureAt := some (s.firstFailureAt.getD now) }) fun _ => rfl)
  | _, .firstFailureAt subscriptionID, db =>
    .ok ((db.subscription subscriptionID).map SubscriptionRow.firstFailureAt, db)
  | _, .setSubscriptionActive _ workspaceID id active, db =>
    match db.ownSubscription workspaceID id with
    | none => .ok (0, db)
    | some _ => .ok (1, db.updateSubscription id (fun s => { s with isActive := active }) fun _ => rfl)
  | _, .rotateSecret workspaceID subscriptionID newSealed oldExpiresAt, db =>
    match db.ownSubscription workspaceID subscriptionID with
    | none => .ok (0, db)
    | some _ => .ok (1, db.updateSubscription subscriptionID (SubscriptionRow.rotate newSealed oldExpiresAt) fun _ => rfl)
  | _, .getSubscription workspaceID id, db => .ok (db.ownSubscription workspaceID id, db)
  | _, .createSubscription workspaceID eventTypes url secret, db =>
    let row : SubscriptionRow := { id := c.newID "", workspaceID, eventTypes, url, secret, isActive := true }
    if h : db.subscriptions.get row.id = none then
      .ok (row, { db with subscriptions := db.subscriptions.insert row h })
    else .error (.store "webhook_subscription_pkey")
  | _, .deleteSubscription workspaceID id, db =>
    match db.ownSubscription workspaceID id with
    | none => .ok (0, db)
    | some _ =>
      -- ON DELETE SET NULL
      let left := db.updateDelivery (db.deliveries.rows.map DeliveryRow.id)
        (fun d => if d.subscriptionID = some id then { d with subscriptionID := none } else d)
        fun d => by split <;> rfl
      .ok (1, { left with subscriptions := left.subscriptions.erase id })
  | _, .emitForEvent workspaceID event, db =>
    db.emit c now event (db.subscriptions.rows.filter fun s =>
      s.workspaceID = workspaceID ∧ s.isActive ∧ event.type ∈ s.eventTypes)
  | _, .enqueuePing workspaceID subscriptionID eventID, db =>
    match (db.ownSubscription workspaceID subscriptionID).filter SubscriptionRow.isActive with
    | none => .ok (0, db)
    | some s =>
      match db.insertDelivery (s.deliveryOf (c.newID s.id) eventID "ping" "\x7b\"message\":\"webhooks.ping\"\x7d" now) with
      | .ok (some _, db') => .ok (1, db')
      | .ok (none, _) => .error (.store "uq_webhook_delivery")
      | .error err => .error err
  | _, .redeliver workspaceID deliveryID, db =>
    match db.source workspaceID deliveryID with
    | none => .ok (none, db)
    | some d => db.insertDelivery (d.again (c.newID d.id) now)
  | _, .redeliverSource workspaceID deliveryID, db =>
    .ok ((db.source workspaceID deliveryID).map fun d => (d.subscriptionID, d.eventID), db)
  | _, .pendingFor subscriptionID eventID, db =>
    .ok (db.deliveries.rows.find? fun d =>
      subscriptionID.isSome ∧ d.subscriptionID = subscriptionID ∧ d.eventID = eventID ∧ d.status = .pending, db)

end Ploykit.Webhooks

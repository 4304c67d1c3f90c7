import Ploykit.Billing.Store
import Ploykit.Lib.Script
import Ploykit.Platform.Webx

/-!
# Billing calls

An `Op` is one call of the `Repo` port of `billing/app`, or a call to a payment
channel, to the usage reader or to the user directory. `Op.exec` follows the SQL
of `billing/adapters/pgrepo`: every method is one statement or one transaction,
so a call happens at once or not at all. An id that is no uuid is an id that no
row has, and a row that no ORDER BY singles out is the first one of its table.

What calls take from outside the tables is a `World`. A call that fails changes
nothing (`Op.failed`).
-/

namespace Ploykit.Billing

open Lib

/-- The errors of the repository and of the services. -/
inductive Err where
  | statusConflict
  | web (e : Webx.Error)
  | text (msg : String)
  deriving DecidableEq, Repr

namespace Err

/-- `err.Error()` -/
def message : Err → String
  | statusConflict => "order status conflict"
  | web e => e.message
  | text msg => msg

def noRows : Err := .text "no rows in result set"

def duplicate : Err := .text "duplicate"

def foreignKey (table constraint : String) : Err :=
  .text ("ERROR: insert or update on table \"" ++ table ++ "\" violates foreign key constraint \""
    ++ constraint ++ "\" (SQLSTATE 23503)")

def notNull (table column : String) : Err :=
  .text ("ERROR: null value in column \"" ++ column ++ "\" of relation \"" ++ table
    ++ "\" violates not-null constraint (SQLSTATE 23502)")

def outOfRange : Err := .text "ERROR: integer out of range (SQLSTATE 22003)"

def checkViolation (table constraint : String) : Err :=
  .text ("ERROR: new row for relation \"" ++ table ++ "\" violates check constraint \""
    ++ constraint ++ "\" (SQLSTATE 23514)")

end Err

/-! ## What calls exchange -/

structure CheckoutRequest where
  order : Order
  successURL : String
  cancelURL : String
  buyerEmail : String
  locale : String
  channelProductID : String
  deriving DecidableEq, Repr

structure MeteredWorkspace where
  workspaceID : String
  planCode : String
  limits : Limits
  planExpiresAt : Option Time
  deriving DecidableEq, Repr

structure ExpiredWorkspace where
  workspaceID : String
  fromPlan : String
  deriving DecidableEq, Repr

structure ExpiredOrder where
  id : String
  workspaceID : String
  deriving DecidableEq, Repr

/-- What comes from outside the tables: generated ids and the database's clock,
the rows that other transactions hold, and the answers of channels, of the usage
reader and of the user directory. -/
structure World where
  newID : Nat → String
  dbNow : Time
  locked : List String
  checkout : String → CheckoutRequest → Except String CheckoutSession
  cancelSubscription : String → String → Except String Unit
  cancelCheckout : String → String → Except String Unit
  registerProduct : String → String → BillingInterval → Except String String
  usage : String → String → String → Except String Int
  buyerEmail : String → Except String String

inductive Op : Type → Type
  | createOrder (o : Order) : Op (Except Err Order)
  | getOrder (id : String) : Op (Except Err (Option Order))
  | listOrdersByWorkspace (workspaceID : String) (limit : Nat) : Op (Except Err (List Order))
  | updateOrderStatus (id : String) (cur next : OrderStatus) (now : Time) : Op (Except Err Unit)
  | cancelOrder (id : String) (cur : OrderStatus) (canceledBy : CanceledBy) (now : Time) :
      Op (Except Err Unit)
  | reviveOrderAfterExpiry (id : String) (now : Time) : Op (Except Err Bool)
  | failOrder (o : Order) (e : PaymentEvent) (now : Time) : Op (Except Err Unit)
  | payOrder (id : String) (now : Time) : Op (Except Err Unit)
  | setOrderChannelRefAndExpiry (id channelRef : String) (expiresAt : Time) : Op (Except Err Unit)
  | findOrderByChannelRef (channel channelRef : String) : Op (Except Err (Option Order))
  | setOrderPaymentIntentRef (id ref : String) : Op (Except Err Unit)
  | findOrderByPaymentIntent (ref : String) : Op (Except Err (Option Order))
  | insertPaymentEvent (e : PaymentEvent) : Op (Except Err Bool)
  | markEventProcessed (channel channelEventID : String) : Op (Except Err Unit)
  | markEventError (channel channelEventID processErr : String) : Op (Except Err Unit)
  | getPlan (code : String) : Op (Except Err (Option Plan))
  | changeWorkspacePlan (workspaceID toPlan actor reason : String) (now : Time) :
      Op (Except Err Unit)
  | getWorkspacePlan (workspaceID : String) : Op (Except Err String)
  | setWorkspaceSubscription (workspaceID ref : String) (expiresAt now : Time) :
      Op (Except Err Unit)
  | getWorkspaceSubscription (workspaceID : String) : Op (Except Err (Option String))
  | findWorkspaceBySubscription (ref : String) : Op (Except Err (Option (String × String)))
  | setWorkspaceCancelRequested (workspaceID : String) (now : Time) : Op (Except Err Unit)
  | getWorkspaceCancelRequested (workspaceID : String) : Op (Except Err (Option Time))
  | clearWorkspaceCancelRequested (workspaceID : String) : Op (Except Err Unit)
  | latestPaidOrderInterval (workspaceID : String) : Op (Except Err (Option BillingInterval))
  | expireDueWorkspaces (now : Time) (limit : Nat) : Op (Except Err (List ExpiredWorkspace))
  | expireStaleOrders (now : Time) (limit : Nat) : Op (Except Err (List ExpiredOrder))
  | insertOverageOrder (o : Order) : Op (Except Err (Option Order))
  | listMeteredWorkspaces (limit : Nat) : Op (Except Err (List MeteredWorkspace))
  | getChannelProduct (channel planCode : String) (interval : BillingInterval) :
      Op (Except Err (Option ChannelProduct))
  | registerChannelProductAtomic (channel planCode : String) (interval : BillingInterval)
      (syncedPriceCents : Int) (syncedAt : Time) : Op (Except Err (String × Bool))
  | createCheckout (channel : String) (req : CheckoutRequest) : Op (Except Err CheckoutSession)
  | cancelSubscription (channel ref : String) : Op (Except Err Unit)
  | cancelCheckout (channel ref : String) : Op (Except Err Unit)
  | usage (workspaceID key period : String) : Op (Except Err Int)
  | buyerEmail (userID : String) : Op (Except Err String)

/-! ## Insertions -/

/-- `amount_cents integer NOT NULL CHECK (amount_cents >= 0)` -/
def OrderRow.checkAmount (o : OrderRow) : Option Err :=
  if o.amountCents < 0 then some (.checkViolation "order" "order_amount_cents_check")
  else if 2 ^ 31 ≤ o.amountCents then some .outOfRange
  else none

/-- The constraints of `order` on a new row, less the foreign key to `user`. -/
def Db.checkOrder (db : Db) (o : OrderRow) : Option Err :=
  if o.checkAmount.isSome then o.checkAmount
  else if (db.workspace o.workspaceID).isNone then
    some (.foreignKey "order" "order_workspace_id_fkey")
  else if (db.plan o.planCode).isNone then some (.foreignKey "order" "order_plan_code_fkey")
  else none

def Db.insertOrder (db : Db) (o : OrderRow) : Except Err Order × Db :=
  match db.checkOrder o with
  | some err => (.error err, db)
  | none =>
    if h : db.orders.get o.id = none then
      (.ok (scanOrder o), { db with orders := db.orders.insert o h })
    else (.error .duplicate, db)

/-- The columns that an INSERT of `order` names, and the defaults of the others. -/
def newOrder (w : World) (db : Db) (o : Order) (userID planCode : String) (metadata : Metadata) :
    OrderRow where
  id := w.newID db.orders.rows.length
  workspaceID := o.workspaceID
  userID := userID
  planCode := planCode
  interval := o.interval
  amountCents := o.amountCents
  currency := o.currency
  channel := o.channel
  status := o.status
  channelRef := ""
  paidAt := none
  canceledAt := none
  refundedAt := none
  createdAt := w.dbNow
  metadata := metadata
  expiresAt := none
  canceledBy := none

def PaymentEvent.row (e : PaymentEvent) : PaymentEventRow where
  channel := e.channel
  channelEventID := e.channelEventID
  processStatus := .received
  processError := none

/-- `key LIKE 'metered\_%\_unit\_cents'` -/
def meteredKey (key : String) : Bool :=
  (((Strings.cutPrefix key "metered_").bind fun rest => Strings.cutSuffix rest "_unit_cents")).isSome

/-- The workspaces of `ListMeteredWorkspaces`, with their plans. -/
def Db.meteredWorkspaces (db : Db) : List MeteredWorkspace :=
  (db.workspaces.rows.insertionSort fun a b => a.createdAt ≤ b.createdAt).filterMap fun w =>
    match db.plan w.planCode with
    | some p =>
      if w.planCode ≠ "free" ∧ p.limits.entries.any (fun e => meteredKey e.1) then
        some ⟨w.id, w.planCode, p.limits, w.planExpiresAt⟩
      else none
    | none => none

/-! ## Execution -/

/-- An answer from outside, with its error as one of ours. -/
def answer {α : Type} : Except String α → Except Err α
  | .ok a => .ok a
  | .error msg => .error (.text msg)

namespace Op

/-- UPDATE ... WHERE id = $1 AND status = $2 -/
def guarded (db : Db) (id : String) (cur : OrderStatus) (db' : Db) : Except Err Unit × Db :=
  match db.order id with
  | some o => if o.status = cur then (.ok (), db') else (.error .statusConflict, db)
  | none => (.error .statusConflict, db)

def exec (w : World) : {β : Type} → Op β → Db → β × Db
  | _, .createOrder o, db => db.insertOrder (newOrder w db o o.userID o.planCode {})
  | _, .getOrder id, db => (.ok ((db.order id).map scanOrder), db)
  | _, .listOrdersByWorkspace ws limit, db => (.ok ((db.ordersByWorkspace ws limit).map scanOrder), db)
  | _, .updateOrderStatus id cur next now, db => guarded db id cur (db.updateStatus id next now)
  | _, .cancelOrder id cur canceledBy now, db =>
    guarded db id cur (db.updateOrder id (.cancel canceledBy now) fun _ => OrderRow.cancel_id)
  | _, .reviveOrderAfterExpiry id now, db =>
    match db.order id with
    | some o =>
      if o.status = .canceled ∧ o.canceledBy = some .expiry then
        (.ok true, db.updateOrder id (.revive now) fun _ => OrderRow.revive_id)
      else (.ok false, db)
    | none => (.ok false, db)
  | _, .failOrder o e _, db =>
    guarded db o.id .pending
      ((db.updateOrder o.id .fail fun _ => OrderRow.fail_id).markEvent e.key .processed none)
  | _, .payOrder id now, db =>
    guarded db id .pending (db.updateOrder id (.pay now) fun _ => OrderRow.pay_id)
  | _, .setOrderChannelRefAndExpiry id ref expiresAt, db =>
    (.ok (), db.updateOrder id (.setChannelRefAndExpiry ref expiresAt) fun _ =>
      OrderRow.setChannelRefAndExpiry_id)
  | _, .findOrderByChannelRef channel ref, db =>
    (.ok ((db.findOrderByChannelRef channel ref).map scanOrder), db)
  | _, .setOrderPaymentIntentRef id ref, db => (.ok (), db.setPaymentIntent id ref)
  | _, .findOrderByPaymentIntent ref, db =>
    (.ok ((db.findOrderByPaymentIntent ref).map scanOrder), db)
  | _, .insertPaymentEvent e, db =>
    if h : db.paymentEvents.get e.key = none then
      if e.orderID ≠ "" ∧ db.order e.orderID = none then
        (.error (.foreignKey "payment_event" "payment_event_order_id_fkey"), db)
      else (.ok true, { db with paymentEvents := db.paymentEvents.insert e.row h })
    else if (db.paymentEvent e.key).map PaymentEventRow.processStatus = some .error then
      (.ok true, db.markEvent e.key .received none)
    else (.ok false, db)
  | _, .markEventProcessed channel id, db => (.ok (), db.markEvent (channel, id) .processed none)
  | _, .markEventError channel id err, db => (.ok (), db.markEvent (channel, id) .error (some err))
  | _, .getPlan code, db => (.ok (db.plan code), db)
  | _, .changeWorkspacePlan ws toPlan actor reason _, db =>
    match db.workspace ws with
    | some row =>
      if (db.plan toPlan).isSome then (.ok (), db.changePlan ws row.planCode toPlan actor reason)
      else (.error (.foreignKey "workspace" "workspace_plan_code_fkey"), db)
    | none => (.error .noRows, db)
  | _, .getWorkspacePlan ws, db => (.ok (((db.workspace ws).map Workspace.planCode).getD "free"), db)
  | _, .setWorkspaceSubscription ws ref expiresAt _, db =>
    if (db.workspace ws).isSome then (.ok (), db.setSubscription ws ref expiresAt)
    else (.error (.text ("set workspace subscription: workspace not found: " ++ ws)), db)
  | _, .getWorkspaceSubscription ws, db =>
    (.ok ((db.workspace ws).map fun row => (row.subscriptionRef.map Subtype.val).getD ""), db)
  | _, .findWorkspaceBySubscription ref, db =>
    (.ok ((db.findWorkspaceBySubscription ref).map fun row => (row.id, row.planCode)), db)
  | _, .setWorkspaceCancelRequested ws now, db =>
    if (db.workspace ws).isSome then
      (.ok (), db.updateWorkspace ws (.requestCancel now) fun _ => Workspace.requestCancel_id)
    else (.error (.text ("set workspace cancel requested: workspace not found: " ++ ws)), db)
  | _, .getWorkspaceCancelRequested ws, db =>
    (.ok ((db.workspace ws).bind Workspace.cancelRequestedAt), db)
  | _, .clearWorkspaceCancelRequested ws, db => (.ok (), db.clearCancel ws)
  | _, .latestPaidOrderInterval ws, db => (.ok ((db.latestPaidOrder ws).map OrderRow.interval), db)
  | _, .expireDueWorkspaces now limit, db =>
    (.ok ((db.dueWorkspaces w.locked now limit).map fun row => ⟨row.id, row.planCode⟩),
      db.expireWorkspaces (db.dueWorkspaces w.locked now limit))
  | _, .expireStaleOrders now limit, db =>
    (.ok ((db.staleOrders w.locked now limit).map fun o => ⟨o.id, o.workspaceID⟩),
      db.expireOrders (db.staleOrders w.locked now limit) now)
  | _, .insertOverageOrder o, db =>
    match db.workspace o.workspaceID with
    | none => (.error (.notNull "order" "user_id"), db)
    | some ws =>
      -- The arbiter index is looked at after the checks on the row, before the foreign keys.
      let row := newOrder w db o ws.createdBy ws.planCode o.metadata
      if row.checkAmount = none ∧ db.hasOverage o.workspaceID o.metadata.overagePeriod then
        (.ok none, db)
      else
        match db.insertOrder row with
        | (.ok created, db') => (.ok (some created), db')
        | (.error err, db') => (.error err, db')
  | _, .listMeteredWorkspaces limit, db => (.ok (db.meteredWorkspaces.take limit), db)
  | _, .getChannelProduct channel planCode interval, db =>
    (.ok (db.channelProducts.get (channel, planCode, interval)), db)
  | _, .registerChannelProductAtomic channel planCode interval price syncedAt, db =>
    if h : db.channelProducts.get (channel, planCode, interval) = none then
      match w.registerProduct channel planCode interval with
      | .ok id =>
        let row : ChannelProduct := ⟨channel, planCode, interval, id, price, some syncedAt⟩
        (.ok (id, false), { db with channelProducts := db.channelProducts.insert row h })
      | .error msg => (.error (.text msg), db)
    else
      (.ok (((db.channelProducts.get (channel, planCode, interval)).map
        ChannelProduct.channelProductID).getD "", true), db)
  | _, .createCheckout channel req, db => (answer (w.checkout channel req), db)
  | _, .cancelSubscription channel ref, db => (answer (w.cancelSubscription channel ref), db)
  | _, .cancelCheckout channel ref, db => (answer (w.cancelCheckout channel ref), db)
  | _, .usage ws key period, db => (answer (w.usage ws key period), db)
  | _, .buyerEmail userID, db => (answer (w.buyerEmail userID), db)

/-- The answer of a call that fails. -/
def failed (err : Err) : {β : Type} → Op β → β
  | _, .createOrder .. => .error err
  | _, .getOrder .. => .error err
  | _, .listOrdersByWorkspace .. => .error err
  | _, .updateOrderStatus .. => .error err
  | _, .cancelOrder .. => .error err
  | _, .reviveOrderAfterExpiry .. => .error err
  | _, .failOrder .. => .error err
  | _, .payOrder .. => .error err
  | _, .setOrderChannelRefAndExpiry .. => .error err
  | _, .findOrderByChannelRef .. => .error err
  | _, .setOrderPaymentIntentRef .. => .error err
  | _, .findOrderByPaymentIntent .. => .error err
  | _, .insertPaymentEvent .. => .error err
  | _, .markEventProcessed .. => .error err
  | _, .markEventError .. => .error err
  | _, .getPlan .. => .error err
  | _, .changeWorkspacePlan .. => .error err
  | _, .getWorkspacePlan .. => .error err
  | _, .setWorkspaceSubscription .. => .error err
  | _, .getWorkspaceSubscription .. => .error err
  | _, .findWorkspaceBySubscription .. => .error err
  | _, .setWorkspaceCancelRequested .. => .error err
  | _, .getWorkspaceCancelRequested .. => .error err
  | _, .clearWorkspaceCancelRequested .. => .error err
  | _, .latestPaidOrderInterval .. => .error err
  | _, .expireDueWorkspaces .. => .error err
  | _, .expireStaleOrders .. => .error err
  | _, .insertOverageOrder .. => .error err
  | _, .listMeteredWorkspaces .. => .error err
  | _, .getChannelProduct .. => .error err
  | _, .registerChannelProductAtomic .. => .error err
  | _, .createCheckout .. => .error err
  | _, .cancelSubscription .. => .error err
  | _, .cancelCheckout .. => .error err
  | _, .usage .. => .error err
  | _, .buyerEmail .. => .error err

/-- The calls for which `may` holds may fail with any error of the driver. -/
def fails (may : {β : Type} → Op β → Db → Prop) {β : Type} (o : Op β) (db : Db) (r : β) : Prop :=
  may o db ∧ ∃ msg, r = o.failed (.text msg)

/-- What one call may do where calls may fail. -/
abbrev Does (w : World) (may : {β : Type} → Op β → Db → Prop) {β : Type} (o : Op β) (db : Db) (r : β)
    (db' : Db) : Prop :=
  Script.Faulty (exec w) (fails may) o db r db'

end Op

/-- Any call may fail. -/
def anyFails {β : Type} (_ : Op β) (_ : Db) : Prop := True

end Ploykit.Billing

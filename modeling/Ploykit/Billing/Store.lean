import Ploykit.Lib.Calendar
import Ploykit.Lib.Keyed
import Ploykit.Platform.Text

/-!
# Billing tables

The types of `billing/domain` with the fields that some modelled function reads
or stores, and the rows of `order`, `workspace`, `payment_event`, `subscription_event`,
`plan` and `billing_channel_products`, less the `updated_at` and `processed_at`
stamps. The limits of a plan are the parsed JSON column; the metadata of an order
has the keys that the services write. Tables with a primary key carry it as an
invariant.
-/

namespace Ploykit.Billing

open Lib

inductive BillingInterval where
  | monthly
  | yearly
  | oneTime
  deriving DecidableEq, Repr

inductive OrderStatus where
  | pending
  | paid
  | failed
  | canceled
  | refunded
  deriving DecidableEq, Repr

/-- The values of `order.canceled_by` other than NULL. -/
inductive CanceledBy where
  | user
  | admin
  | expiry
  deriving DecidableEq, Repr

/-- `map[string]int`, with its distinct keys. -/
structure Limits where
  entries : List (String × Int)
  nodup : (entries.map Prod.fst).Nodup
  deriving DecidableEq, Repr

namespace Limits

/-- `limits[key]`, with the presence of the key. -/
def get (l : Limits) (key : String) : Option Int := (l.entries.find? fun e => e.1 = key).map Prod.snd

/-- `limits[key]`, zero where the key is missing. -/
def getD (l : Limits) (key : String) : Int := (l.get key).getD 0

end Limits

structure Plan where
  code : String
  limits : Limits
  currency : String
  deriving DecidableEq, Repr

/-- One metered dimension in the metadata of an overage order. -/
structure OverageMetaItem where
  dim : String
  used : Int
  included : Int
  unitCents : Int
  overageUnits : Int
  overageCents : Int
  deriving DecidableEq, Repr

structure Metadata where
  paymentIntent : Option String := none
  overagePeriod : Option String := none
  items : List OverageMetaItem := []
  deriving DecidableEq, Repr

structure Order where
  id : String := ""
  workspaceID : String
  userID : String := ""
  planCode : String := ""
  interval : BillingInterval
  amountCents : Int
  currency : String
  channel : String
  status : OrderStatus
  channelRef : String := ""
  paidAt : Option Time := none
  canceledAt : Option Time := none
  refundedAt : Option Time := none
  createdAt : Time := 0
  trialDays : Int := 0
  metadata : Metadata := {}
  deriving DecidableEq, Repr

structure CheckoutSession where
  orderID : String
  channel : String
  actionURL : String
  sessionRef : String
  expiresAt : Time
  deriving DecidableEq, Repr

inductive EventType where
  | checkoutCompleted
  | paymentFailed
  | refundCreated
  | subscriptionRenewed
  | subscriptionCanceled
  | other (name : String)
  deriving DecidableEq, Repr

structure PaymentEvent where
  channel : String
  channelEventID : String
  type : EventType
  orderID : String := ""
  channelRef : String := ""
  subscriptionRef : String := ""
  paymentIntentRef : String := ""
  amountCents : Int := 0
  currency : String := ""
  deriving DecidableEq, Repr

/-- UNIQUE (channel, channel_event_id) -/
def PaymentEvent.key (e : PaymentEvent) : String × String := (e.channel, e.channelEventID)

/-- `time.Time{}` -/
def zeroTime : Time := -62135596800000000

def channelManual : String := "manual"

/-! ## Prices and periods -/

def planAmountCents (plan : Plan) (interval : BillingInterval) : Int :=
  plan.limits.getD (match interval with
    | .yearly => "price_yearly_cents"
    | .oneTime => "price_one_time_cents"
    | .monthly => "price_monthly_cents")

def planCurrency (plan : Plan) (fallback : String) : String :=
  if plan.currency ≠ "" then plan.currency else fallback

def Plan.trialDays (plan : Plan) : Int := plan.limits.getD "trial_days"

def addInterval (now : Time) (interval : BillingInterval) (trialDays : Int) : Time :=
  if trialDays > 0 then Calendar.addDate now 0 0 trialDays
  else match interval with
    | .yearly => Calendar.addDate now 1 0 0
    | _ => Calendar.addDate now 0 1 0

/-- Both currencies are given and differ in more than case. -/
def currencyMismatch (c c' : String) : Bool := c ≠ "" && c' ≠ "" && !Strings.equalFold c c'

def amountMismatch (order : Order) (event : PaymentEvent) : Bool :=
  if order.trialDays > 0 || event.amountCents ≤ 0 then false
  else order.amountCents ≠ event.amountCents || currencyMismatch event.currency order.currency

/-- Without a trial the period is that of the interval. -/
theorem addInterval_noTrial {now : Time} {interval : BillingInterval} {trialDays : Int}
    (h : trialDays ≤ 0) : addInterval now interval trialDays = addInterval now interval 0 := by
  have hpos : ¬ trialDays > 0 := Int.not_lt.2 h
  have hzero : ¬ (0 : Int) > 0 := by decide
  unfold addInterval
  rw [if_neg hpos, if_neg hzero]

/-- A period without a trial is not empty. -/
theorem lt_addInterval {now : Time} {interval : BillingInterval} : now < addInterval now interval 0 := by
  have hzero : ¬ (0 : Int) > 0 := by decide
  unfold addInterval
  rw [if_neg hzero]
  cases interval with
  | yearly => exact Calendar.lt_addYear now
  | monthly => exact Calendar.lt_addMonth now
  | oneTime => exact Calendar.lt_addMonth now

/-! ## Rows -/

/-- A row of `order`: what `scanOrder` reads, and the two columns it does not. -/
structure OrderRow where
  id : String
  workspaceID : String
  userID : String
  planCode : String
  interval : BillingInterval
  amountCents : Int
  currency : String
  channel : String
  status : OrderStatus
  channelRef : String
  paidAt : Option Time
  canceledAt : Option Time
  refundedAt : Option Time
  createdAt : Time
  metadata : Metadata
  expiresAt : Option Time
  canceledBy : Option CanceledBy
  deriving DecidableEq, Repr

/-- The columns of `orderCols`. There is none for the trial days. -/
def scanOrder (o : OrderRow) : Order where
  id := o.id
  workspaceID := o.workspaceID
  userID := o.userID
  planCode := o.planCode
  interval := o.interval
  amountCents := o.amountCents
  currency := o.currency
  channel := o.channel
  status := o.status
  channelRef := o.channelRef
  paidAt := o.paidAt
  canceledAt := o.canceledAt
  refundedAt := o.refundedAt
  createdAt := o.createdAt
  metadata := o.metadata

@[simp] theorem scanOrder_id {o : OrderRow} : (scanOrder o).id = o.id := rfl
@[simp] theorem scanOrder_workspaceID {o : OrderRow} : (scanOrder o).workspaceID = o.workspaceID := rfl
@[simp] theorem scanOrder_planCode {o : OrderRow} : (scanOrder o).planCode = o.planCode := rfl
@[simp] theorem scanOrder_interval {o : OrderRow} : (scanOrder o).interval = o.interval := rfl
@[simp] theorem scanOrder_status {o : OrderRow} : (scanOrder o).status = o.status := rfl
@[simp] theorem scanOrder_trialDays {o : OrderRow} : (scanOrder o).trialDays = 0 := rfl

/-- A subscription reference as it is stored: `NULLIF($2, '')` leaves no empty one. -/
abbrev SubscriptionRef := {s : String // s ≠ ""}

def nullif (s : String) : Option SubscriptionRef := if h : s = "" then none else some ⟨s, h⟩

structure Workspace where
  id : String
  planCode : String
  createdBy : String
  createdAt : Time
  planExpiresAt : Option Time
  subscriptionRef : Option SubscriptionRef
  cancelRequestedAt : Option Time
  deriving DecidableEq, Repr

inductive ProcessStatus where
  | received
  | processed
  | error
  deriving DecidableEq, Repr

structure PaymentEventRow where
  channel : String
  channelEventID : String
  processStatus : ProcessStatus
  processError : Option String
  deriving DecidableEq, Repr

def PaymentEventRow.key (e : PaymentEventRow) : String × String := (e.channel, e.channelEventID)

structure SubscriptionEvent where
  workspaceID : String
  fromPlan : String
  toPlan : String
  reason : String
  actor : String
  deriving DecidableEq, Repr

structure ChannelProduct where
  channel : String
  planCode : String
  interval : BillingInterval
  channelProductID : String
  syncedPriceCents : Int
  syncedAt : Option Time
  deriving DecidableEq, Repr

/-- PRIMARY KEY (channel, plan_code, interval) -/
def ChannelProduct.key (p : ChannelProduct) : String × String × BillingInterval :=
  (p.channel, p.planCode, p.interval)

structure Db where
  plans : Keyed Plan.code
  workspaces : Keyed Workspace.id
  orders : Keyed OrderRow.id
  paymentEvents : Keyed PaymentEventRow.key
  subscriptionEvents : List SubscriptionEvent
  channelProducts : Keyed ChannelProduct.key

namespace Db

def plan (db : Db) (code : String) : Option Plan := db.plans.get code
def workspace (db : Db) (id : String) : Option Workspace := db.workspaces.get id
def order (db : Db) (id : String) : Option OrderRow := db.orders.get id
def paymentEvent (db : Db) (k : String × String) : Option PaymentEventRow := db.paymentEvents.get k

end Db

/-! ## Orders -/

namespace OrderRow

/-- The SET clause of `UpdateOrderStatus`. -/
def setStatus (next : OrderStatus) (now : Time) (o : OrderRow) : OrderRow :=
  { o with
    status := next
    paidAt := if next = .paid then some now else o.paidAt
    canceledAt := if next = .canceled then some now else o.canceledAt
    refundedAt := if next = .refunded then some now else o.refundedAt }

def cancel (by' : CanceledBy) (now : Time) (o : OrderRow) : OrderRow :=
  { o with status := .canceled, canceledAt := some now, canceledBy := some by' }

def revive (now : Time) (o : OrderRow) : OrderRow :=
  { o with status := .paid, paidAt := some now, canceledBy := none }

def fail (o : OrderRow) : OrderRow := { o with status := .failed }

def pay (now : Time) (o : OrderRow) : OrderRow := { o with status := .paid, paidAt := some now }

def setPaymentIntent (ref : String) (o : OrderRow) : OrderRow :=
  { o with metadata := { o.metadata with paymentIntent := some ref } }

def setChannelRefAndExpiry (ref : String) (expiresAt : Time) (o : OrderRow) : OrderRow :=
  { o with channelRef := ref, expiresAt := if expiresAt = zeroTime then none else some expiresAt }

variable {o : OrderRow} {next : OrderStatus} {now : Time} {by' : CanceledBy} {ref : String}

@[simp] theorem setStatus_id : (o.setStatus next now).id = o.id := rfl
@[simp] theorem cancel_id : (o.cancel by' now).id = o.id := rfl
@[simp] theorem revive_id : (o.revive now).id = o.id := rfl
@[simp] theorem fail_id : o.fail.id = o.id := rfl
@[simp] theorem pay_id : (o.pay now).id = o.id := rfl
@[simp] theorem setPaymentIntent_id : (o.setPaymentIntent ref).id = o.id := rfl
@[simp] theorem setChannelRefAndExpiry_id {t : Time} :
    (o.setChannelRefAndExpiry ref t).id = o.id := rfl

/-- The order that `ORDER BY created_at DESC` puts before the other. -/
def newer (a b : OrderRow) : Bool := b.createdAt < a.createdAt

/-- `ORDER BY paid_at DESC NULLS LAST, created_at DESC` -/
def paidLater (a b : OrderRow) : Bool :=
  match a.paidAt, b.paidAt with
  | some p, some q => q < p || p = q && b.createdAt < a.createdAt
  | some _, none => true
  | none, some _ => false
  | none, none => b.createdAt < a.createdAt

end OrderRow

namespace Db

/-- Change the order with the id. -/
def updateOrder (db : Db) (id : String) (f : OrderRow → OrderRow) (hf : ∀ o, (f o).id = o.id) : Db :=
  { db with orders := db.orders.update [id] f hf }

def updateStatus (db : Db) (id : String) (next : OrderStatus) (now : Time) : Db :=
  db.updateOrder id (.setStatus next now) fun _ => OrderRow.setStatus_id

def setPaymentIntent (db : Db) (id ref : String) : Db :=
  db.updateOrder id (.setPaymentIntent ref) fun _ => OrderRow.setPaymentIntent_id

/-- The orders due for the sweep, oldest expiry first, less those that other
transactions hold (SKIP LOCKED). -/
def staleOrders (db : Db) (locked : List String) (now : Time) (limit : Nat) : List OrderRow :=
  ((db.orders.rows.filter fun o => o.status = .pending ∧ o.id ∉ locked
      ∧ ∃ t ∈ o.expiresAt, t ≤ now).insertionSort
    fun a b => a.expiresAt.getD 0 ≤ b.expiresAt.getD 0).take limit

/-- The write of `ExpireStaleOrders`. -/
def expireOrders (db : Db) (stale : List OrderRow) (now : Time) : Db :=
  { db with
    orders := db.orders.update (stale.map OrderRow.id) (.cancel .expiry now) fun _ =>
      OrderRow.cancel_id }

def findOrderByChannelRef (db : Db) (channel ref : String) : Option OrderRow :=
  db.orders.find fun o => o.channel = channel ∧ o.channelRef = ref

def findOrderByPaymentIntent (db : Db) (ref : String) : Option OrderRow :=
  Table.first OrderRow.newer (db.orders.rows.filter fun o => o.metadata.paymentIntent = some ref)

/-- The order of `LatestPaidOrderInterval`. -/
def latestPaidOrder (db : Db) (workspaceID : String) : Option OrderRow :=
  Table.first OrderRow.paidLater (db.orders.rows.filter fun o =>
    o.workspaceID = workspaceID ∧ o.status = .paid ∧ o.interval ≠ .oneTime)

/-- The newest orders of the workspace. -/
def ordersByWorkspace (db : Db) (workspaceID : String) (limit : Nat) : List OrderRow :=
  ((db.orders.rows.filter fun o => o.workspaceID = workspaceID).insertionSort
    fun a b => b.createdAt ≤ a.createdAt).take limit

/-- An overage order of the workspace for the period. -/
def hasOverage (db : Db) (workspaceID : String) (period : Option String) : Bool :=
  period.isSome && db.orders.rows.any fun o =>
    o.workspaceID = workspaceID && o.metadata.overagePeriod = period

end Db

namespace Db

variable {db : Db} {id id' : String} {f : OrderRow → OrderRow} {hf : ∀ o, (f o).id = o.id}
  {next : OrderStatus} {now : Time} {ref : String}

@[simp] theorem order_updateOrder (hf : ∀ o, (f o).id = o.id) :
    (db.updateOrder id f hf).order id = (db.order id).map f :=
  Keyed.get_update_self hf

theorem order_updateOrder_ne (hf : ∀ o, (f o).id = o.id) (h : id' ≠ id) :
    (db.updateOrder id f hf).order id' = db.order id' :=
  Keyed.get_update_ne hf h

@[simp] theorem workspace_updateOrder {ws : String} :
    (db.updateOrder id f hf).workspace ws = db.workspace ws := rfl
@[simp] theorem plan_updateOrder {code : String} :
    (db.updateOrder id f hf).plan code = db.plan code := rfl

@[simp] theorem order_updateStatus :
    (db.updateStatus id next now).order id = (db.order id).map (.setStatus next now) :=
  order_updateOrder (f := .setStatus next now) fun _ => OrderRow.setStatus_id

@[simp] theorem order_setPaymentIntent :
    (db.setPaymentIntent id ref).order id = (db.order id).map (.setPaymentIntent ref) :=
  order_updateOrder (f := .setPaymentIntent ref) fun _ => OrderRow.setPaymentIntent_id

theorem order_setPaymentIntent_ne (h : id' ≠ id) :
    (db.setPaymentIntent id ref).order id' = db.order id' :=
  order_updateOrder_ne (f := .setPaymentIntent ref) (fun _ => OrderRow.setPaymentIntent_id) h

end Db

/-! ## Workspaces -/

namespace Workspace

def setPlan (plan : String) (w : Workspace) : Workspace := { w with planCode := plan }

/-- The SET clause of `SetWorkspaceSubscription`. -/
def setSubscription (ref : String) (expiresAt : Time) (w : Workspace) : Workspace :=
  { w with
    subscriptionRef := nullif ref
    planExpiresAt := if ref ≠ "" then some expiresAt else none }

def requestCancel (now : Time) (w : Workspace) : Workspace := { w with cancelRequestedAt := some now }

def clearCancel (w : Workspace) : Workspace := { w with cancelRequestedAt := none }

def expire (w : Workspace) : Workspace :=
  { w with planCode := "free", planExpiresAt := none, cancelRequestedAt := none }

variable {w : Workspace} {plan ref : String} {t : Time}

@[simp] theorem setPlan_id : (w.setPlan plan).id = w.id := rfl
@[simp] theorem setSubscription_id : (w.setSubscription ref t).id = w.id := rfl
@[simp] theorem requestCancel_id : (w.requestCancel t).id = w.id := rfl
@[simp] theorem clearCancel_id : w.clearCancel.id = w.id := rfl
@[simp] theorem expire_id : w.expire.id = w.id := rfl

end Workspace

namespace Db

def updateWorkspace (db : Db) (id : String) (f : Workspace → Workspace)
    (hf : ∀ w, (f w).id = w.id) : Db :=
  { db with workspaces := db.workspaces.update [id] f hf }

def record (db : Db) (e : SubscriptionEvent) : Db :=
  { db with subscriptionEvents := db.subscriptionEvents ++ [e] }

/-- The writes of `ChangeWorkspacePlan`. -/
def changePlan (db : Db) (workspaceID fromPlan toPlan actor reason : String) : Db :=
  (db.updateWorkspace workspaceID (.setPlan toPlan) fun _ => Workspace.setPlan_id).record
    ⟨workspaceID, fromPlan, toPlan, reason, actor⟩

def setSubscription (db : Db) (workspaceID ref : String) (expiresAt : Time) : Db :=
  db.updateWorkspace workspaceID (.setSubscription ref expiresAt) fun _ =>
    Workspace.setSubscription_id

def clearCancel (db : Db) (workspaceID : String) : Db :=
  db.updateWorkspace workspaceID .clearCancel fun _ => Workspace.clearCancel_id

def findWorkspaceBySubscription (db : Db) (ref : String) : Option Workspace :=
  db.workspaces.find fun w => w.subscriptionRef.map Subtype.val = some ref

/-- The workspaces whose paid period is over, earliest first, less the locked ones. -/
def dueWorkspaces (db : Db) (locked : List String) (now : Time) (limit : Nat) : List Workspace :=
  ((db.workspaces.rows.filter fun w => w.id ∉ locked ∧ ∃ t ∈ w.planExpiresAt, t ≤ now).insertionSort
    fun a b => a.planExpiresAt.getD 0 ≤ b.planExpiresAt.getD 0).take limit

/-- The writes of `ExpireDueWorkspaces`. -/
def expireWorkspaces (db : Db) (due : List Workspace) : Db :=
  { db with
    workspaces := db.workspaces.update (due.map Workspace.id) .expire fun _ => Workspace.expire_id
    subscriptionEvents := db.subscriptionEvents ++ due.map fun w =>
      ⟨w.id, w.planCode, "free", "plan_expired", "system:expiry_worker"⟩ }

end Db

namespace Db

variable {db : Db} {id ws : String} {f : Workspace → Workspace} {hf : ∀ w, (f w).id = w.id}
  {fromPlan toPlan actor reason ref code : String} {t : Time}

@[simp] theorem workspace_updateWorkspace (hf : ∀ w, (f w).id = w.id) :
    (db.updateWorkspace ws f hf).workspace ws = (db.workspace ws).map f :=
  Keyed.get_update_self hf
@[simp] theorem workspace_changePlan :
    (db.changePlan ws fromPlan toPlan actor reason).workspace ws
      = (db.workspace ws).map (.setPlan toPlan) :=
  workspace_updateWorkspace (f := .setPlan toPlan) fun _ => Workspace.setPlan_id
@[simp] theorem workspace_setSubscription :
    (db.setSubscription ws ref t).workspace ws = (db.workspace ws).map (.setSubscription ref t) :=
  workspace_updateWorkspace (f := .setSubscription ref t) fun _ => Workspace.setSubscription_id
@[simp] theorem workspace_clearCancel :
    (db.clearCancel ws).workspace ws = (db.workspace ws).map .clearCancel :=
  workspace_updateWorkspace (f := .clearCancel) fun _ => Workspace.clearCancel_id

end Db

/-! ## Payment events -/

def PaymentEventRow.mark (s : ProcessStatus) (err : Option String) (e : PaymentEventRow) :
    PaymentEventRow :=
  { e with processStatus := s, processError := err }

@[simp] theorem PaymentEventRow.mark_key {s : ProcessStatus} {err : Option String}
    {e : PaymentEventRow} : (e.mark s err).key = e.key := rfl

namespace Db

def markEvent (db : Db) (k : String × String) (s : ProcessStatus) (err : Option String) : Db :=
  { db with
    paymentEvents := db.paymentEvents.update [k] (.mark s err) fun _ => PaymentEventRow.mark_key }

end Db

end Ploykit.Billing

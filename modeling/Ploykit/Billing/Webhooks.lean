import Ploykit.Billing.Repo

/-!
# Webhooks

`HandleWebhook` and its handlers in `billing/app/service.go`. The hooks, the audit
records and the log lines only observe and are left out; a hook inside a
transaction of the repository that fails is a call that fails. The clock is read
once in a handler, and what it answers is an argument.
-/

namespace Ploykit.Billing

open Lib

abbrev Svc := Script Op

inductive CancelTiming where
  | immediate
  | periodEnd
  deriving DecidableEq, Repr

structure WebhookRequest where
  header : List (String × List String)
  body : List UInt8
  deriving DecidableEq, Repr

/-- A payment channel: its name, what it makes of a webhook, and what it declares. -/
structure Channel where
  name : String
  parseWebhook : WebhookRequest → Except String PaymentEvent
  catalogBased : Bool := false
  currencies : List String := []
  staticProductID : Option (String → BillingInterval → String) := none
  registersProducts : Bool := false
  cancelsSubscriptions : Bool := false
  cancelsCheckouts : Bool := false
  cancelTiming : Option CancelTiming := none

/-- `ChannelSet.Get` -/
abbrev ChannelSet := String → Option Channel

/-! ## Events that fail -/

def failEvent (event : PaymentEvent) (processErr : Err) : Svc (Except Err Unit) := do
  let _ ← Script.op (.markEventError event.channel event.channelEventID processErr.message)
  return .error processErr

/-- `if err != nil { return s.failEvent(ctx, event, err) }` -/
def orFail {α : Type} (event : PaymentEvent) (r : Except Err α)
    (k : α → Svc (Except Err Unit)) : Svc (Except Err Unit) :=
  match r with
  | .ok a => k a
  | .error err => failEvent event err

def processed (event : PaymentEvent) : Svc (Except Err Unit) :=
  Script.op (.markEventProcessed event.channel event.channelEventID)

/-- The end of the handlers that settle a recorded cancel request. -/
def clearCancel (event : PaymentEvent) (workspaceID : String) : Svc (Except Err Unit) := do
  orFail event (← Script.op (.clearWorkspaceCancelRequested workspaceID)) fun () => processed event

/-! ## Orders of events -/

def resolveOrder (event : PaymentEvent) : Svc (Except Err (Option Order)) :=
  let byPaymentIntent : Svc (Except Err (Option Order)) :=
    let pi := if event.paymentIntentRef = "" then event.channelRef else event.paymentIntentRef
    if pi ≠ "" then Script.op (.findOrderByPaymentIntent pi) else return .ok none
  if event.orderID ≠ "" then Script.op (.getOrder event.orderID)
  else if event.channelRef ≠ "" then do
    match ← Script.op (.findOrderByChannelRef event.channel event.channelRef) with
    | .error err => return .error err
    | .ok (some o) => return .ok (some o)
    | .ok none => byPaymentIntent
  else byPaymentIntent

/-! ## Paid -/

def subscriptionExpiry (order : Order) (now : Time) : Svc Time := do
  let trialDays := match ← Script.op (.getPlan order.planCode) with
    | .ok (some plan) => plan.trialDays
    | _ => 0
  return addInterval now order.interval trialDays

/-- `handlePaid` from where the order is paid: what it has bought. -/
def grant (event : PaymentEvent) (order : Order) (now : Time) : Svc (Except Err Unit) := do
  orFail event (← Script.op (.getWorkspacePlan order.workspaceID)) fun _ => do
  orFail event (← Script.op (.changeWorkspacePlan order.workspaceID order.planCode
    ("webhook:" ++ event.channel) ("order:" ++ order.id) now)) fun () => do
  if event.subscriptionRef ≠ "" then do
    let expiresAt ← subscriptionExpiry order now
    orFail event (← Script.op (.setWorkspaceSubscription order.workspaceID event.subscriptionRef
      expiresAt now)) fun () => clearCancel event order.workspaceID
  else clearCancel event order.workspaceID

/-- `handlePaid` on an order that is not pending any more. -/
def notPending (event : PaymentEvent) (order : Order) (now : Time) : Svc (Except Err Unit) := do
  orFail event (← Script.op (.getOrder order.id)) fun cur => do
  if cur.map Order.status = some .paid then grant event order now
  else if cur.map Order.status = some .canceled then do
    orFail event (← Script.op (.reviveOrderAfterExpiry order.id now)) fun revived =>
      if revived then grant event order now else processed event
  else processed event

/-- `handlePaid` from where the order's status is changed. -/
def pay (event : PaymentEvent) (order : Order) (now : Time) : Svc (Except Err Unit) := do
  match ← Script.op (.updateOrderStatus order.id .pending .paid now) with
  | .ok () => grant event order now
  | .error .statusConflict => notPending event order now
  | .error err => failEvent event err

def handlePaid (event : PaymentEvent) (now : Time) : Svc (Except Err Unit) := do
  orFail event (← resolveOrder event) fun found => do
  match found with
  | none => processed event
  | some order =>
    if amountMismatch order event then processed event
    else if event.paymentIntentRef ≠ "" then do
      orFail event (← Script.op (.setOrderPaymentIntentRef order.id event.paymentIntentRef))
        fun () => pay event order now
    else pay event order now

/-! ## Failed -/

def handleFailed (event : PaymentEvent) (now : Time) : Svc (Except Err Unit) := do
  orFail event (← resolveOrder event) fun found => do
  match found with
  | none => processed event
  | some order =>
    match ← Script.op (.failOrder order event now) with
    | .ok () => return .ok ()
    | .error .statusConflict => processed event
    | .error err => failEvent event err

/-! ## Refunded -/

/-- `handleRefund` from where the order is refunded: what is taken back. -/
def revoke (event : PaymentEvent) (order : Order) (now : Time) : Svc (Except Err Unit) := do
  orFail event (← Script.op (.changeWorkspacePlan order.workspaceID "free"
    ("webhook:" ++ event.channel) ("refund:" ++ order.id) now)) fun () => do
  if event.subscriptionRef ≠ "" then do
    orFail event (← Script.op (.setWorkspaceSubscription order.workspaceID "" zeroTime now))
      fun () => clearCancel event order.workspaceID
  else processed event

def handleRefund (event : PaymentEvent) (now : Time) : Svc (Except Err Unit) := do
  orFail event (← resolveOrder event) fun found => do
  match found with
  | none => processed event
  | some order =>
    match ← Script.op (.updateOrderStatus order.id .paid .refunded now) with
    | .ok () => revoke event order now
    | .error .statusConflict => processed event
    | .error err => failEvent event err

/-! ## Renewed -/

/-- `renewalAmountMismatch`, less what it returns for the log. -/
def renewalAmountMismatch (event : PaymentEvent) : Svc (Except Err Bool) := do
  if event.amountCents ≤ 0 then return .ok false
  else
    match ← Script.op (.getOrder event.orderID) with
    | .error err => return .error err
    | .ok none => return .ok false
    | .ok (some order) =>
      match ← Script.op (.getPlan order.planCode) with
      | .error err => return .error err
      | .ok none => return .ok false
      | .ok (some plan) =>
        let expected := planAmountCents plan order.interval
        if expected ≤ 0 then return .ok false
        else return .ok (currencyMismatch event.currency order.currency
          || expected ≠ event.amountCents)

/-- `handleRenewed` from where the subscription is extended: a workspace that has
been downgraded gets the plan of the event's order back. -/
def restorePlan (event : PaymentEvent) (workspaceID currentPlan : String) (now : Time) :
    Svc (Except Err Unit) := do
  if event.orderID ≠ "" ∧ currentPlan = "free" then
    orFail event (← Script.op (.getOrder event.orderID)) fun found => do
    match found with
    | none => processed event
    | some o =>
      if o.planCode ≠ "" ∧ o.planCode ≠ currentPlan then
        orFail event (← Script.op (.changeWorkspacePlan workspaceID o.planCode
          ("webhook:" ++ event.channel) ("renewal:" ++ event.orderID) now)) fun () =>
          processed event
      else processed event
  else processed event

/-- `handleRenewed` from where the amount has been accepted. -/
def extend (event : PaymentEvent) (now : Time) : Svc (Except Err Unit) := do
  orFail event (← Script.op (.findWorkspaceBySubscription event.subscriptionRef)) fun found => do
  match found with
  | none => processed event
  | some (wsID, currentPlan) =>
    orFail event (← Script.op (.getWorkspaceCancelRequested wsID)) fun _ => do
    orFail event (← Script.op (.latestPaidOrderInterval wsID)) fun iv => do
    let expiresAt := addInterval now (iv.getD .monthly) 0
    orFail event (← Script.op (.setWorkspaceSubscription wsID event.subscriptionRef expiresAt now))
      fun () => restorePlan event wsID currentPlan now

/-- `handleRenewed` from where the amount is compared with the price. -/
def reconcile (event : PaymentEvent) (now : Time) : Svc (Except Err Unit) := do
  orFail event (← renewalAmountMismatch event) fun mismatch =>
    if mismatch then processed event else extend event now

def handleRenewed (event : PaymentEvent) (now : Time) : Svc (Except Err Unit) :=
  if event.orderID ≠ "" then
    if event.paymentIntentRef ≠ "" then do
      orFail event (← Script.op (.setOrderPaymentIntentRef event.orderID event.paymentIntentRef))
        fun () => reconcile event now
    else reconcile event now
  else extend event now

/-! ## Canceled -/

def handleCanceled (event : PaymentEvent) (now : Time) : Svc (Except Err Unit) := do
  orFail event (← Script.op (.findWorkspaceBySubscription event.subscriptionRef)) fun found => do
  match found with
  | none => processed event
  | some (wsID, _) =>
    orFail event (← Script.op (.changeWorkspacePlan wsID "free" ("webhook:" ++ event.channel)
      ("subscription:" ++ event.subscriptionRef) now)) fun () => do
    orFail event (← Script.op (.setWorkspaceSubscription wsID "" zeroTime now)) fun () =>
      clearCancel event wsID

/-! ## Dispatch -/

def handle (event : PaymentEvent) (now : Time) : Svc (Except Err Unit) :=
  match event.type with
  | .checkoutCompleted => handlePaid event now
  | .paymentFailed => handleFailed event now
  | .refundCreated => handleRefund event now
  | .subscriptionRenewed => handleRenewed event now
  | .subscriptionCanceled => handleCanceled event now
  | .other _ => processed event

/-- `HandleWebhook` from where the event is verified. -/
def deliver (event : PaymentEvent) (now : Time) : Svc (Except Err Unit) := do
  match ← Script.op (.insertPaymentEvent event) with
  | .error err => return .error err
  | .ok false => return .ok ()
  | .ok true => handle event now

def handleWebhook (channels : ChannelSet) (channelName : String) (req : WebhookRequest)
    (now : Time) : Svc (Except Err Unit) :=
  match channels channelName with
  | none => return .error (.web (Webx.newNotFound ("unknown channel: " ++ channelName)))
  | some channel =>
    match channel.parseWebhook req with
    | .error _ => return .error (.web (Webx.newUnauthenticated "webhook signature verification failed"))
    | .ok event => deliver event now

end Ploykit.Billing

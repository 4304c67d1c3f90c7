import Ploykit.Billing.Services
import Ploykit.Lib.Pool

/-!
# Requests

A `Request` is one call of a billing service with its arguments. Which calls the
repository can receive from it (`Request.Issues`) is read off the services once;
what a property needs of a service's calls follows from that.

Requests are served one after the other (`Serves`), each call of them failing or
not and the process stopping anywhere, or call by call at the same time
(`Pool.Next machine`).
-/

namespace Ploykit.Billing

open Lib Script

inductive Request where
  | webhook (channels : ChannelSet) (channelName : String) (req : WebhookRequest) (now : Time)
  | checkout (cfg : Config) (channels : ChannelSet) (p : Principal) (workspaceID planCode : String)
      (interval : BillingInterval) (channelName : String) (now : Time)
  | cancelPendingOrder (channels : ChannelSet) (p : Principal) (orderID : String) (now : Time)
  | adminCancelPendingOrder (orderID : String) (now : Time)
  | markOrderPaid (orderID : String) (now : Time)
  | expireStaleOrders (now : Time) (limit : Nat)
  | expireDueWorkspaces (now : Time) (limit : Nat)
  | userCancelSubscription (channels : ChannelSet) (p : Option Principal) (workspaceID : String)
      (now : Time)
  | adminCancelSubscription (channels : ChannelSet) (actor : Option Principal)
      (workspaceID : String) (now : Time)
  | changePlan (p : Principal) (workspaceID toPlan : String) (now : Time)
  | meterDueOverages (cfg : Config) (now : Time) (limit : Int)

/-- Keep of an answer whether it is an error. -/
def void {α : Type} (m : Svc (Except Err α)) : Svc (Except Err Unit) := do
  return (← m).map fun _ => ()

namespace Request

def script : Request → Svc (Except Err Unit)
  | webhook channels name req now => handleWebhook channels name req now
  | checkout cfg channels p ws plan interval name now =>
    void (createCheckout cfg channels p ws plan interval name now)
  | cancelPendingOrder channels p id now => Billing.cancelPendingOrder channels p id now
  | adminCancelPendingOrder id now => Billing.adminCancelPendingOrder id now
  | markOrderPaid id now => Billing.markOrderPaid id now
  | expireStaleOrders now limit => void (Billing.expireStaleOrders now limit)
  | expireDueWorkspaces now limit => void (Billing.expireDueWorkspaces now limit)
  | userCancelSubscription channels p ws now => void (Billing.userCancelSubscription channels p ws now)
  | adminCancelSubscription channels actor ws now =>
    Billing.adminCancelSubscription channels actor ws now
  | changePlan p ws plan now => Billing.changePlan p ws plan now
  | meterDueOverages cfg now limit => void (Billing.meterDueOverages cfg now limit)

/-- The event that a webhook request carries. -/
def event : Request → Option PaymentEvent
  | webhook channels name req _ => (channels name).bind fun ch => (ch.parseWebhook req).toOption
  | _ => none

end Request

/-! ## The calls of events -/

/-- The calls that the delivery of an event can issue. -/
def PaymentEvent.Issues (e : PaymentEvent) : {β : Type} → Op β → Prop
  | _, .getOrder _ => True
  | _, .findOrderByChannelRef .. => True
  | _, .findOrderByPaymentIntent _ => True
  | _, .getPlan _ => True
  | _, .getWorkspacePlan _ => True
  | _, .findWorkspaceBySubscription _ => True
  | _, .getWorkspaceCancelRequested _ => True
  | _, .latestPaidOrderInterval _ => True
  | _, .insertPaymentEvent e' => e' = e
  | _, .markEventProcessed channel id => (channel, id) = e.key
  | _, .markEventError channel id _ => (channel, id) = e.key
  | _, .updateOrderStatus _ cur next _ =>
    e.type = .checkoutCompleted ∧ cur = .pending ∧ next = .paid ∨
      e.type = .refundCreated ∧ cur = .paid ∧ next = .refunded
  | _, .reviveOrderAfterExpiry .. => e.type = .checkoutCompleted
  | _, .failOrder _ e' _ => e' = e ∧ e.type = .paymentFailed
  | _, .setOrderPaymentIntentRef _ ref =>
    ref = e.paymentIntentRef ∧ (e.type = .checkoutCompleted ∨ e.type = .subscriptionRenewed)
  | _, .changeWorkspacePlan _ plan _ reason _ =>
    e.type = .checkoutCompleted ∧ (∃ id, reason = "order:" ++ id) ∨
      e.type = .refundCreated ∧ plan = "free" ∧ (∃ id, reason = "refund:" ++ id) ∨
      e.type = .subscriptionRenewed ∧ reason = "renewal:" ++ e.orderID ∨
      e.type = .subscriptionCanceled ∧ plan = "free" ∧ reason = "subscription:" ++ e.subscriptionRef
  | _, .setWorkspaceSubscription .. => True
  | _, .clearWorkspaceCancelRequested _ => True
  | _, _ => False

section events

variable {event : PaymentEvent} {order : Order} {now : Time}

theorem calls_failEvent (err : Err) : (failEvent event err).Calls event.Issues :=
  .seq rfl fun _ => trivial

theorem calls_processed : (processed event).Calls event.Issues := by
  rw [processed, calls_op]
  rfl

theorem calls_orFail {α : Type} {r : Except Err α} {k : α → Svc (Except Err Unit)}
    (hk : ∀ a, (k a).Calls event.Issues) : (orFail event r k).Calls event.Issues := by
  cases r with
  | ok a => exact hk a
  | error err => exact calls_failEvent err

theorem calls_clearCancel {ws : String} : (clearCancel event ws).Calls event.Issues :=
  .seq trivial fun _ => calls_orFail fun () => calls_processed

theorem calls_resolveOrder : (resolveOrder event).Calls event.Issues := by
  have hpi : ∀ pi, (if pi ≠ "" then op (.findOrderByPaymentIntent pi)
      else return .ok none : Svc _).Calls event.Issues :=
    fun pi => .ite (fun _ => by rw [calls_op]; trivial) fun _ => trivial
  refine .ite (fun _ => by rw [calls_op]; trivial) fun _ => .ite (fun _ => ?_) fun _ => hpi _
  refine .seq trivial fun r => ?_
  rcases r with err | _ | o
  · trivial
  · exact hpi _
  · trivial

theorem calls_subscriptionExpiry : (subscriptionExpiry order now).Calls event.Issues :=
  .seq trivial fun _ => trivial

theorem calls_grant (h : event.type = .checkoutCompleted) :
    (grant event order now).Calls event.Issues := by
  refine .seq trivial fun _ => calls_orFail fun _ => ?_
  refine .seq (.inl ⟨h, _, rfl⟩) fun _ => calls_orFail fun () => ?_
  refine .ite (fun _ => ?_) fun _ => calls_clearCancel
  refine calls_subscriptionExpiry.bind fun _ => ?_
  exact .seq trivial fun _ => calls_orFail fun () => calls_clearCancel

theorem calls_notPending (h : event.type = .checkoutCompleted) :
    (notPending event order now).Calls event.Issues := by
  refine .seq trivial fun _ => calls_orFail fun cur => ?_
  refine .ite (fun _ => calls_grant h) fun _ => .ite (fun _ => ?_) fun _ => calls_processed
  refine .seq h fun _ => calls_orFail fun revived => ?_
  cases revived with
  | true => exact calls_grant h
  | false => exact calls_processed

theorem calls_pay (h : event.type = .checkoutCompleted) :
    (pay event order now).Calls event.Issues := by
  refine .seq (.inl ⟨h, rfl, rfl⟩) fun r => ?_
  rcases r with (_ | e | msg) | _
  · exact calls_notPending h
  · exact calls_failEvent _
  · exact calls_failEvent _
  · exact calls_grant h

theorem calls_handlePaid (h : event.type = .checkoutCompleted) :
    (handlePaid event now).Calls event.Issues := by
  refine calls_resolveOrder.bind fun _ => calls_orFail fun found => ?_
  cases found with
  | none => exact calls_processed
  | some order =>
    refine .ite (fun _ => calls_processed) fun _ => .ite (fun _ => ?_) fun _ => calls_pay h
    exact .seq ⟨rfl, .inl h⟩ fun _ => calls_orFail fun () => calls_pay h

theorem calls_handleFailed (h : event.type = .paymentFailed) :
    (handleFailed event now).Calls event.Issues := by
  refine calls_resolveOrder.bind fun _ => calls_orFail fun found => ?_
  cases found with
  | none => exact calls_processed
  | some order =>
    refine .seq ⟨rfl, h⟩ fun r => ?_
    rcases r with (_ | e | msg) | _
    · exact calls_processed
    · exact calls_failEvent _
    · exact calls_failEvent _
    · trivial

theorem calls_revoke (h : event.type = .refundCreated) :
    (revoke event order now).Calls event.Issues := by
  refine .seq (.inr (.inl ⟨h, rfl, _, rfl⟩)) fun _ => calls_orFail fun () => ?_
  refine .ite (fun _ => ?_) fun _ => calls_processed
  exact .seq trivial fun _ => calls_orFail fun () => calls_clearCancel

theorem calls_handleRefund (h : event.type = .refundCreated) :
    (handleRefund event now).Calls event.Issues := by
  refine calls_resolveOrder.bind fun _ => calls_orFail fun found => ?_
  cases found with
  | none => exact calls_processed
  | some order =>
    refine .seq (.inr ⟨h, rfl, rfl⟩) fun r => ?_
    rcases r with (_ | e | msg) | _
    · exact calls_processed
    · exact calls_failEvent _
    · exact calls_failEvent _
    · exact calls_revoke h

theorem calls_renewalAmountMismatch : (renewalAmountMismatch event).Calls event.Issues := by
  refine .ite (fun _ => trivial) fun _ => .seq trivial fun r => ?_
  rcases r with err | _ | order
  · trivial
  · trivial
  · refine .seq trivial fun r => ?_
    rcases r with err | _ | plan
    · trivial
    · trivial
    · exact .ite (fun _ => trivial) fun _ => trivial

theorem calls_restorePlan (h : event.type = .subscriptionRenewed) {ws plan : String} :
    (restorePlan event ws plan now).Calls event.Issues := by
  refine .ite (fun _ => ?_) fun _ => calls_processed
  refine .seq trivial fun _ => calls_orFail fun found => ?_
  cases found with
  | none => exact calls_processed
  | some o =>
    refine .ite (fun _ => ?_) fun _ => calls_processed
    exact .seq (.inr (.inr (.inl ⟨h, rfl⟩))) fun _ => calls_orFail fun () => calls_processed

theorem calls_extend (h : event.type = .subscriptionRenewed) :
    (extend event now).Calls event.Issues := by
  refine .seq trivial fun _ => calls_orFail fun found => ?_
  rcases found with _ | ⟨ws, plan⟩
  · exact calls_processed
  · refine .seq trivial fun _ => calls_orFail fun _ => ?_
    refine .seq trivial fun _ => calls_orFail fun _ => ?_
    exact .seq trivial fun _ => calls_orFail fun () => calls_restorePlan h

theorem calls_reconcile (h : event.type = .subscriptionRenewed) :
    (reconcile event now).Calls event.Issues := by
  refine calls_renewalAmountMismatch.bind fun _ => calls_orFail fun mismatch => ?_
  exact .ite (fun _ => calls_processed) fun _ => calls_extend h

theorem calls_handleRenewed (h : event.type = .subscriptionRenewed) :
    (handleRenewed event now).Calls event.Issues := by
  refine .ite (fun _ => .ite (fun _ => ?_) fun _ => calls_reconcile h) fun _ => calls_extend h
  exact .seq ⟨rfl, .inr h⟩ fun _ => calls_orFail fun () => calls_reconcile h

theorem calls_handleCanceled (h : event.type = .subscriptionCanceled) :
    (handleCanceled event now).Calls event.Issues := by
  refine .seq trivial fun _ => calls_orFail fun found => ?_
  rcases found with _ | ⟨ws, plan⟩
  · exact calls_processed
  · refine .seq (.inr (.inr (.inr ⟨h, rfl, rfl⟩))) fun _ => calls_orFail fun () => ?_
    exact .seq trivial fun _ => calls_orFail fun () => calls_clearCancel

theorem calls_handle : (handle event now).Calls event.Issues := by
  unfold handle
  cases h : event.type with
  | checkoutCompleted => exact calls_handlePaid h
  | paymentFailed => exact calls_handleFailed h
  | refundCreated => exact calls_handleRefund h
  | subscriptionRenewed => exact calls_handleRenewed h
  | subscriptionCanceled => exact calls_handleCanceled h
  | other name => exact calls_processed

theorem calls_deliver : (deliver event now).Calls event.Issues := by
  refine .seq rfl fun r => ?_
  rcases r with err | _ | _
  · trivial
  · trivial
  · exact calls_handle

end events

/-! ## The calls of the other services -/

/-- The calls that requests other than webhooks can issue. -/
def ServiceOp : {β : Type} → Op β → Prop
  | _, .createOrder o => o.status = .pending
  | _, .insertOverageOrder o => o.status = .pending ∧ o.metadata.paymentIntent = none
  | _, .updateOrderStatus _ cur next _ => cur = .pending ∧ next = .failed
  | _, .cancelOrder _ cur canceledBy _ => cur = .pending ∧ canceledBy ≠ .expiry
  | _, .changeWorkspacePlan _ plan _ reason _ =>
    plan = "free" ∧ (reason = "user cancel" ∨ reason = "admin cancel") ∨ reason = "admin manual"
  | _, .setWorkspaceSubscription _ ref _ _ => ref = ""
  | _, .reviveOrderAfterExpiry .. => False
  | _, .failOrder .. => False
  | _, .findOrderByChannelRef .. => False
  | _, .setOrderPaymentIntentRef .. => False
  | _, .findOrderByPaymentIntent _ => False
  | _, .insertPaymentEvent _ => False
  | _, .markEventProcessed .. => False
  | _, .markEventError .. => False
  | _, .findWorkspaceBySubscription _ => False
  | _, .latestPaidOrderInterval _ => False
  | _, _ => True

/-- Those of them that leave the workspaces as they are. -/
def OrderOp : {β : Type} → Op β → Prop
  | _, .changeWorkspacePlan .. => False
  | _, .setWorkspaceSubscription .. => False
  | _, .setWorkspaceCancelRequested .. => False
  | _, .clearWorkspaceCancelRequested _ => False
  | _, .expireDueWorkspaces .. => False
  | _, o => ServiceOp o

theorem OrderOp.service {β : Type} {o : Op β} (h : OrderOp o) : ServiceOp o := by
  cases o with
  | changeWorkspacePlan => exact h.elim
  | setWorkspaceSubscription => exact h.elim
  | setWorkspaceCancelRequested => exact h.elim
  | clearWorkspaceCancelRequested => exact h.elim
  | expireDueWorkspaces => exact h.elim
  | _ => exact h

section services

variable {P : {β : Type} → Op β → Prop} {cfg : Config} {channels : ChannelSet} {now : Time} {α β : Type}

theorem calls_orReturn {r : Except Err α} {k : α → Svc (Except Err β)}
    (hk : ∀ a, (k a).Calls P) : (orReturn r k).Calls P := by
  cases r with
  | ok a => exact hk a
  | error err => trivial

theorem calls_void {m : Svc (Except Err α)} (h : m.Calls P) : (void m).Calls P :=
  h.bind fun _ => trivial

theorem calls_resolveChannelProduct {channel : Channel} {name : String} {plan : Plan}
    {interval : BillingInterval} {amount : Int} :
    (resolveChannelProduct cfg channel name plan interval amount now).Calls OrderOp := by
  refine .ite (fun _ => trivial) fun _ => .ite (fun _ => trivial) fun _ => ?_
  refine .seq trivial fun _ => calls_orReturn fun found => ?_
  cases found with
  | some p => trivial
  | none =>
    refine .ite (fun _ => trivial) fun _ => .ite (fun _ => ?_) fun _ => trivial
    exact .seq trivial fun r => by cases r <;> trivial

theorem calls_createCheckout {p : Principal} {ws plan name : String} {interval : BillingInterval} :
    (createCheckout cfg channels p ws plan interval name now).Calls OrderOp := by
  refine .seq trivial fun _ => calls_orReturn fun found => ?_
  rcases found with _ | plan
  · trivial
  cases channels name with
  | none => trivial
  | some channel =>
  refine .ite (fun _ => trivial) fun _ => ?_
  refine calls_resolveChannelProduct.bind fun _ => calls_orReturn fun _ => ?_
  refine .seq rfl fun _ => calls_orReturn fun order => ?_
  refine Calls.bind (.seq trivial fun r => by cases r <;> trivial) fun _ => ?_
  refine .seq trivial fun r => ?_
  rcases r with err | session
  · exact .seq ⟨rfl, rfl⟩ fun _ => trivial
  · exact .seq trivial fun _ => trivial

theorem calls_cancelPendingOrder {p : Principal} {id : String} :
    (cancelPendingOrder channels p id now).Calls OrderOp := by
  refine .ite (fun _ => trivial) fun _ => .seq trivial fun r => ?_
  rcases r with err | _ | order
  · trivial
  · trivial
  · refine .ite (fun _ => trivial) fun _ => .ite (fun _ => trivial) fun _ => ?_
    refine .seq ⟨rfl, nofun⟩ fun _ => calls_orReturn fun () => ?_
    cases channels order.channel with
    | none => trivial
    | some ch => exact .ite (fun _ => .seq trivial fun _ => trivial) fun _ => trivial

theorem calls_adminCancelPendingOrder {id : String} :
    (adminCancelPendingOrder id now).Calls OrderOp := by
  refine .seq trivial fun _ => calls_orReturn fun found => ?_
  cases found with
  | none => trivial
  | some order =>
    refine .ite (fun _ => trivial) fun _ => ?_
    exact .seq ⟨rfl, nofun⟩ fun r => by cases r <;> trivial

theorem calls_markOrderPaid {id : String} : (markOrderPaid id now).Calls OrderOp := by
  refine .seq trivial fun _ => calls_orReturn fun found => ?_
  cases found with
  | none => trivial
  | some order =>
    refine .ite (fun _ => trivial) fun _ => ?_
    exact .seq trivial fun r => by cases r <;> trivial

theorem calls_locateSubscriptionChannel {ws : String} :
    (locateSubscriptionChannel channels ws).Calls ServiceOp :=
  .seq trivial fun _ => calls_orReturn fun _ => trivial

theorem calls_requestCancel {ws : String} {outcome : CancelOutcome} :
    (requestCancel ws outcome now).Calls ServiceOp :=
  .seq trivial fun _ => calls_orReturn fun () => trivial

theorem calls_replayCancelOutcome {ws subRef plan : String} :
    (replayCancelOutcome channels ws subRef plan).Calls ServiceOp := by
  refine .ite (fun _ => trivial) fun _ => .ite (fun _ => ?_) fun _ => trivial
  refine calls_locateSubscriptionChannel.bind fun _ => calls_orReturn fun located => ?_
  cases located.1 with
  | none => trivial
  | some ch => exact .ite (fun _ => trivial) fun _ => trivial

theorem calls_userCancelSubscription {p : Option Principal} {ws : String} :
    (userCancelSubscription channels p ws now).Calls ServiceOp := by
  cases p with
  | none => trivial
  | some p =>
  refine .ite (fun _ => trivial) fun _ => .ite (fun _ => trivial) fun _ => ?_
  refine .seq trivial fun _ => calls_orReturn fun found => ?_
  rcases found with _ | subRef
  · trivial
  refine .seq trivial fun _ => calls_orReturn fun fromPlan => ?_
  refine .seq trivial fun _ => calls_orReturn fun pending => ?_
  refine .ite (fun _ => calls_replayCancelOutcome) fun _ => .ite (fun _ => trivial) fun _ => ?_
  refine .ite (fun _ => calls_requestCancel) fun _ => ?_
  refine calls_locateSubscriptionChannel.bind fun _ => calls_orReturn fun located => ?_
  cases located.1.filter Channel.cancelsSubscriptions with
  | none => exact calls_requestCancel
  | some ch =>
  refine .seq trivial fun r => ?_
  rcases r with err | _
  · trivial
  refine .ite (fun _ => ?_) fun _ => calls_requestCancel
  refine .seq (.inl ⟨rfl, .inl rfl⟩) fun _ => calls_orReturn fun () => ?_
  exact .seq rfl fun _ => calls_orReturn fun () => trivial

theorem calls_adminCancelSubscription {actor : Option Principal} {ws : String} :
    (adminCancelSubscription channels actor ws now).Calls ServiceOp := by
  have hdowngrade : (op (.changeWorkspacePlan ws "free" (adminActor actor) "admin cancel" now)
      >>= fun r => orReturn r fun () => op (.setWorkspaceSubscription ws "" zeroTime now)
      >>= fun r => orReturn r fun () => op (.clearWorkspaceCancelRequested ws) :
      Svc (Except Err Unit)).Calls ServiceOp := by
    refine .seq (.inl ⟨rfl, .inr rfl⟩) fun _ => calls_orReturn fun () => ?_
    exact .seq rfl fun _ => calls_orReturn fun () => by rw [calls_op]; trivial
  refine .seq trivial fun _ => calls_orReturn fun found => ?_
  rcases found with _ | subRef
  · trivial
  refine .seq trivial fun _ => calls_orReturn fun fromPlan => ?_
  refine .ite (fun _ => trivial) fun _ => .ite (fun _ => ?_) fun _ => hdowngrade
  refine calls_locateSubscriptionChannel.bind fun _ => calls_orReturn fun located => ?_
  rcases located with ⟨_ | ch, reason⟩
  · trivial
  · refine .ite (fun _ => trivial) fun _ => .seq trivial fun r => ?_
    rcases r with err | _
    · trivial
    · exact hdowngrade

theorem calls_changePlan {p : Principal} {ws plan : String} :
    (changePlan p ws plan now).Calls ServiceOp := by
  refine .seq trivial fun _ => calls_orReturn fun _ => .ite (fun _ => trivial) fun _ => ?_
  rw [calls_op]
  exact .inr rfl

theorem calls_createOverageOrder {ws period : String} {items : List OverageItem} :
    (createOverageOrder cfg ws period items).Calls OrderOp := by
  refine .ite (fun _ => trivial) fun _ => Calls.bind ?_ fun _ => by rw [calls_op]; exact ⟨rfl, rfl⟩
  refine .seq trivial fun r => ?_
  rcases r with err | plan
  · trivial
  · refine .seq trivial fun r => ?_
    rcases r with err | _ | plan <;> trivial

theorem calls_readUsage {ws period : String} {dims : List MeteredDim} :
    (readUsage ws period dims).Calls OrderOp := by
  induction dims with
  | nil => trivial
  | cons m ms ih =>
    refine .seq trivial fun r => ?_
    rcases r with err | used
    · exact ih
    · exact ih.bind fun _ => trivial

theorem calls_meterWorkspaces {cs : List MeteredWorkspace} :
    (meterWorkspaces cfg now cs).Calls OrderOp := by
  induction cs with
  | nil => trivial
  | cons c cs ih =>
    refine .ite (fun _ => ?_) fun _ => ih
    refine calls_readUsage.bind fun items => calls_createOverageOrder.bind fun r => ?_
    rcases r with err | _ | order
    · exact ih
    · exact ih
    · exact ih.bind fun _ => trivial

theorem calls_meterDueOverages {limit : Int} :
    (meterDueOverages cfg now limit).Calls OrderOp :=
  .seq trivial fun _ => calls_orReturn fun _ => calls_meterWorkspaces.bind fun _ => trivial

end services

namespace Request

/-- The calls that a request can issue. -/
def Issues (rq : Request) {β : Type} (o : Op β) : Prop :=
  match rq.event with
  | some e => e.Issues o
  | none => ServiceOp o

/-- A webhook request delivers the event it carries, or does nothing. -/
theorem script_webhook (channels : ChannelSet) (name : String) (req : WebhookRequest) (now : Time) :
    (∃ e, (webhook channels name req now).event = some e ∧
        (webhook channels name req now).script = deliver e now) ∨
      (webhook channels name req now).event = none ∧
        ∃ err, (webhook channels name req now).script = return .error err := by
  cases hch : channels name with
  | none =>
    refine .inr ⟨by simp [event, hch], .web (Webx.newNotFound ("unknown channel: " ++ name)), ?_⟩
    simp [script, handleWebhook, hch]
  | some ch =>
    cases hreq : ch.parseWebhook req with
    | error err =>
      refine .inr ⟨by simp [event, hch, hreq, Except.toOption],
        .web (Webx.newUnauthenticated "webhook signature verification failed"), ?_⟩
      simp [script, handleWebhook, hch, hreq]
    | ok e =>
      exact .inl ⟨e, by simp [event, hch, hreq, Except.toOption],
        by simp [script, handleWebhook, hch, hreq]⟩

/-- A request that carries an event delivers it. -/
theorem script_event {rq : Request} {e : PaymentEvent} (h : rq.event = some e) :
    ∃ now, rq.script = deliver e now := by
  cases rq with
  | webhook channels name req now =>
    rcases script_webhook channels name req now with ⟨e', he', hscript⟩ | ⟨hnone, -⟩
    · cases h.symm.trans he'
      exact ⟨now, hscript⟩
    · cases h.symm.trans hnone
  | _ => cases h

theorem issues (rq : Request) : rq.script.Calls rq.Issues := by
  cases rq with
  | webhook channels name req now =>
    rcases script_webhook channels name req now with ⟨e, he, hs⟩ | ⟨-, err, hs⟩
    · rw [hs]
      exact calls_deliver.mono fun o h => by simpa only [Issues, he] using h
    · rw [hs]
      trivial
  | checkout => exact (calls_void calls_createCheckout).mono fun _ => OrderOp.service
  | cancelPendingOrder => exact calls_cancelPendingOrder.mono fun _ => OrderOp.service
  | adminCancelPendingOrder => exact calls_adminCancelPendingOrder.mono fun _ => OrderOp.service
  | markOrderPaid => exact calls_markOrderPaid.mono fun _ => OrderOp.service
  | expireStaleOrders =>
    exact calls_void (.seq trivial fun _ => calls_orReturn fun _ => trivial)
  | expireDueWorkspaces =>
    refine calls_void ?_
    rw [Billing.expireDueWorkspaces, calls_op]
    trivial
  | userCancelSubscription => exact calls_void calls_userCancelSubscription
  | adminCancelSubscription => exact calls_adminCancelSubscription
  | changePlan => exact calls_changePlan
  | meterDueOverages => exact (calls_void calls_meterDueOverages).mono fun _ => OrderOp.service

end Request

/-! ## Serving requests -/

/-- One request is served: its calls may fail, and the process may stop at any
point between them. -/
def Serves (rq : Request) (db db' : Db) : Prop :=
  ∃ w m, Path (Op.Does w anyFails) rq.script db m db'

/-- What a request leaves when nothing fails. -/
def serve (w : World) (rq : Request) (db : Db) : Db := (rq.script.run (Op.exec w) db).2

theorem serves_serve (w : World) (rq : Request) (db : Db) : Serves rq db (serve w rq db) :=
  ⟨w, _, run_path (fun o s => Faulty.of_exec o s) _ _⟩

/-- A database after the migrations: there are no orders and no payment events,
the free plan is seeded, and workspaces are as they are created. -/
structure Installed (db : Db) : Prop where
  orders : db.orders.rows = []
  paymentEvents : db.paymentEvents.rows = []
  free : (db.plan "free").isSome
  workspaces : ∀ w ∈ db.workspaces.rows, w.planCode = "free" ∧ w.planExpiresAt = none ∧
    w.subscriptionRef = none ∧ w.cancelRequestedAt = none

/-- The states that requests served one after the other can reach. -/
def Reachable (db : Db) : Prop :=
  ∃ db₀ past, Installed db₀ ∧ Run (fun db db' => ∃ rq, Serves rq db db') db₀ past db

/-- Requests served one after the other, where nothing fails. -/
def serveAll (w : World) (rqs : List Request) (db : Db) : Db := rqs.foldl (fun db rq => serve w rq db) db

theorem Installed.reachable {db : Db} (h : Installed db) : Reachable db := ⟨db, [], h, .start⟩

theorem Reachable.next {rq : Request} {db db' : Db} (h : Reachable db) (hserves : Serves rq db db') :
    Reachable db' := by
  obtain ⟨db₀, past, h₀, hrun⟩ := h
  exact ⟨db₀, db :: past, h₀, .next hrun ⟨rq, hserves⟩⟩

theorem Reachable.serveAll {w : World} {rqs : List Request} {db : Db} (h : Reachable db) :
    Reachable (serveAll w rqs db) := by
  induction rqs generalizing db with
  | nil => exact h
  | cons rq rqs ih => exact ih (h.next (serves_serve w rq db))

/-- Requests served at the same time, call by call. -/
def machine : Machine Op Db where
  step _ _ o db r db' := ∃ w, Op.Does w anyFails o db r db'
  abort _ db := db
  env _ _ := False

/-- The pool of requests that are being served. -/
abbrev Server := Pool Op Db (Except Err Unit)

def Server.Next : Server → Server → Prop := Pool.Next machine fun m => ∃ rq : Request, m = rq.script

/-! ## A small database

Runs on it show what goes wrong where. -/

def freePlan : Plan := ⟨"free", ⟨[], by decide⟩, "usd"⟩

def proPlan (trialDays : Int) : Plan where
  code := "pro"
  limits := ⟨[("price_monthly_cents", 900), ("price_yearly_cents", 9000), ("trial_days", trialDays),
    ("metered_calls_unit_cents", 3), ("metered_calls_included", 10),
    ("metered_mails_unit_cents", 2)], by simp⟩
  currency := "usd"

def newWorkspace (id : String) (createdAt : Time) : Workspace :=
  ⟨id, "free", "u1", createdAt, none, none, none⟩

/-- Two plans and two workspaces. -/
def smallDb (trialDays : Int) : Db where
  plans := ⟨[freePlan, proPlan trialDays], by simp [freePlan, proPlan]⟩
  workspaces := ⟨[newWorkspace "w1" 1, newWorkspace "w2" 2], by simp [newWorkspace]⟩
  orders := .empty
  paymentEvents := .empty
  subscriptionEvents := []
  channelProducts := .empty

theorem smallDb_installed (trialDays : Int) : Installed (smallDb trialDays) where
  orders := rfl
  paymentEvents := rfl
  free := rfl
  workspaces w hw := by
    simp only [smallDb, List.mem_cons, List.not_mem_nil, or_false] at hw
    rcases hw with rfl | rfl <;> exact ⟨rfl, rfl, rfl, rfl⟩

/-- A world in which outside calls succeed, at a time of the database's clock. -/
def smallWorld (dbNow : Time) : World where
  newID n := "o" ++ toString (n + 1)
  dbNow := dbNow
  locked := []
  checkout channel req := .ok ⟨req.order.id, channel, "url", "session-" ++ req.order.id, zeroTime⟩
  cancelSubscription _ _ := .ok ()
  cancelCheckout _ _ := .ok ()
  registerProduct _ _ _ := .ok "product"
  usage _ _ _ := .ok 30
  buyerEmail _ := .ok "mail"

def smallConfig : Config := ⟨"success", "cancel", "usd", "en", false⟩

/-- A channel that takes every webhook for the event, and cancels subscriptions. -/
def smallChannel (name : String) (e : PaymentEvent) : Channel where
  name := name
  parseWebhook _ := .ok e
  cancelsSubscriptions := true

/-- The webhook request that carries the event. -/
def Request.ofEvent (e : PaymentEvent) (now : Time) : Request :=
  .webhook (fun name => some (smallChannel name e)) e.channel ⟨[], []⟩ now

/-- A checkout of the pro plan. -/
def Request.buy (ws : String) (interval : BillingInterval) (channel : String) (now : Time) : Request :=
  .checkout smallConfig (fun name => some (smallChannel name ⟨name, "", .other "", "", "", "", "", 0, ""⟩))
    ⟨"u1", ws, "mail"⟩ ws "pro" interval channel now

end Ploykit.Billing

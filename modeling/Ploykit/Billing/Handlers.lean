import Ploykit.Billing.Schema

/-!
# Handlers

The handlers of `Ploykit.Billing.Webhooks` as functions on the tables. Where no
call fails and the foreign keys hold, every handler comes to its end and marks
the event as processed; what it has written until then is `Db.handled`.
-/

namespace Ploykit.Billing

open Lib Script

/-! ## Rows -/

namespace OrderRow

/-- A payment that arrives for the order buys its plan. -/
def Payable (o : OrderRow) : Prop :=
  o.status = .pending ∨ o.status = .paid ∨ o.status = .canceled ∧ o.canceledBy = some .expiry

instance : DecidablePred Payable := fun o => by unfold Payable; infer_instance

/-- A payable order once it is paid. -/
def settle (now : Time) (o : OrderRow) : OrderRow :=
  match o.status with
  | .pending => o.setStatus .paid now
  | .canceled => o.revive now
  | _ => o

variable {now : Time} {o : OrderRow}

@[simp] theorem settle_id : (o.settle now).id = o.id := by
  unfold settle
  split <;> rfl

theorem settle_pending (h : o.status = .pending) : o.settle now = o.setStatus .paid now := by
  simp [settle, h]

theorem settle_canceled (h : o.status = .canceled) : o.settle now = o.revive now := by
  simp [settle, h]

theorem settle_paid (h : o.status = .paid) : o.settle now = o := by simp [settle, h]

theorem settle_status (h : o.Payable) : (o.settle now).status = .paid := by
  rcases h with h | h | ⟨h, -⟩
  · rw [settle_pending h]
    rfl
  · rw [settle_paid h]
    exact h
  · rw [settle_canceled h]
    rfl

end OrderRow

namespace Workspace

/-- The workspace once the order with the plan is granted. -/
def grant (plan sub : String) (expiresAt : Time) (w : Workspace) : Workspace :=
  if sub ≠ "" then ((w.setPlan plan).setSubscription sub expiresAt).clearCancel
  else (w.setPlan plan).clearCancel

/-- The workspace once its subscription is canceled. -/
def unsubscribe (w : Workspace) : Workspace :=
  ((w.setPlan "free").setSubscription "" zeroTime).clearCancel

/-- The workspace once a refund has taken back what it has. -/
def revoke (sub : String) (w : Workspace) : Workspace :=
  if sub ≠ "" then w.unsubscribe else w.setPlan "free"

theorem grant_noRef {plan : String} {t : Time} :
    grant plan "" t = fun w => (w.setPlan plan).clearCancel := by
  funext w
  simp [grant]

theorem grant_ref {plan sub : String} {t : Time} (h : sub ≠ "") :
    grant plan sub t = fun w => ((w.setPlan plan).setSubscription sub t).clearCancel := by
  funext w
  simp [grant, h]

theorem revoke_noRef : revoke "" = setPlan "free" := by
  funext w
  simp [revoke]

theorem revoke_ref {sub : String} (h : sub ≠ "") : revoke sub = unsubscribe := by
  funext w
  simp [revoke, h]

@[simp] theorem grant_id {plan sub : String} {t : Time} {w : Workspace} :
    (w.grant plan sub t).id = w.id := by
  unfold grant
  split <;> rfl

@[simp] theorem revoke_id {sub : String} {w : Workspace} : (w.revoke sub).id = w.id := by
  unfold revoke
  split <;> rfl

@[simp] theorem unsubscribe_id {w : Workspace} : w.unsubscribe.id = w.id := rfl

end Workspace

/-- The payment reference that `resolveOrder` falls back to. -/
def PaymentEvent.paymentRef (e : PaymentEvent) : String :=
  if e.paymentIntentRef = "" then e.channelRef else e.paymentIntentRef

/-! ## Tables -/

namespace Db

/-- The order of a payment reference, if there is one. -/
def orderOfPayment (db : Db) (ref : String) : Option OrderRow :=
  if ref ≠ "" then db.findOrderByPaymentIntent ref else none

/-- What `resolveOrder` finds. -/
def resolve (db : Db) (e : PaymentEvent) : Option OrderRow :=
  if e.orderID ≠ "" then db.order e.orderID
  else if e.channelRef ≠ "" then
    (db.findOrderByChannelRef e.channel e.channelRef).or (db.orderOfPayment e.paymentRef)
  else db.orderOfPayment e.paymentRef

/-- The plan of the workspace, as `GetWorkspacePlan` answers it. -/
def planOf (db : Db) (ws : String) : String := ((db.workspace ws).map Workspace.planCode).getD "free"

def trialDays (db : Db) (plan : String) : Int := ((db.plan plan).map Plan.trialDays).getD 0

/-- What `subscriptionExpiry` answers. -/
def subscriptionExpiry (db : Db) (o : OrderRow) (now : Time) : Time :=
  addInterval now o.interval (db.trialDays o.planCode)

/-- The payment reference of an event is kept with the order. -/
def anchor (db : Db) (id ref : String) : Db := if ref ≠ "" then db.setPaymentIntent id ref else db

/-- Change the row of a workspace, its plan included. -/
def movePlan (db : Db) (ws : String) (f : Workspace → Workspace) (hf : ∀ w, (f w).id = w.id)
    (toPlan actor reason : String) : Db :=
  (db.updateWorkspace ws f hf).record ⟨ws, db.planOf ws, toPlan, reason, actor⟩

def granted (db : Db) (e : PaymentEvent) (o : OrderRow) (now : Time) : Db :=
  db.movePlan o.workspaceID (.grant o.planCode e.subscriptionRef (db.subscriptionExpiry o now))
    (fun _ => Workspace.grant_id) o.planCode ("webhook:" ++ e.channel) ("order:" ++ o.id)

/-- What `handlePaid` leaves. -/
def paidBy (db : Db) (e : PaymentEvent) (now : Time) : Db :=
  match db.resolve e with
  | none => db
  | some o =>
    if amountMismatch (scanOrder o) e then db
    else if o.Payable then
      ((db.anchor o.id e.paymentIntentRef).updateOrder o.id (.settle now) fun _ =>
        OrderRow.settle_id).granted e o now
    else db.anchor o.id e.paymentIntentRef

/-- What `handleFailed` leaves. -/
def failedBy (db : Db) (e : PaymentEvent) : Db :=
  match db.resolve e with
  | none => db
  | some o => if o.status = .pending then db.updateOrder o.id .fail fun _ => OrderRow.fail_id else db

def revoked (db : Db) (e : PaymentEvent) (o : OrderRow) : Db :=
  db.movePlan o.workspaceID (.revoke e.subscriptionRef) (fun _ => Workspace.revoke_id) "free"
    ("webhook:" ++ e.channel) ("refund:" ++ o.id)

/-- What `handleRefund` leaves. -/
def refundedBy (db : Db) (e : PaymentEvent) (now : Time) : Db :=
  match db.resolve e with
  | none => db
  | some o =>
    if o.status = .paid then (db.updateStatus o.id .refunded now).revoked e o else db

/-- What `renewalAmountMismatch` answers. -/
def renewalAmountMismatch (db : Db) (e : PaymentEvent) : Bool :=
  if e.amountCents ≤ 0 then false
  else match db.order e.orderID with
    | none => false
    | some o => match db.plan o.planCode with
      | none => false
      | some plan =>
        let expected := planAmountCents plan o.interval
        if expected ≤ 0 then false
        else currencyMismatch e.currency o.currency || expected ≠ e.amountCents

/-- What `restorePlan` leaves. -/
def planRestored (db : Db) (e : PaymentEvent) (ws currentPlan : String) : Db :=
  if e.orderID ≠ "" ∧ currentPlan = "free" then
    match db.order e.orderID with
    | none => db
    | some o =>
      if o.planCode ≠ "" ∧ o.planCode ≠ currentPlan then
        db.movePlan ws (.setPlan o.planCode) (fun _ => Workspace.setPlan_id) o.planCode
          ("webhook:" ++ e.channel) ("renewal:" ++ e.orderID)
      else db
  else db

/-- The interval of a renewal of the workspace. -/
def renewalInterval (db : Db) (ws : String) : BillingInterval :=
  ((db.latestPaidOrder ws).map OrderRow.interval).getD .monthly

/-- The end of the period that a renewal of the workspace pays for. -/
def renewalExpiry (db : Db) (ws : String) (now : Time) : Time :=
  addInterval now (db.renewalInterval ws) 0

/-- What `extend` leaves. -/
def extendedBy (db : Db) (e : PaymentEvent) (now : Time) : Db :=
  match db.findWorkspaceBySubscription e.subscriptionRef with
  | none => db
  | some ws =>
    (db.setSubscription ws.id e.subscriptionRef (db.renewalExpiry ws.id now)).planRestored e ws.id
      ws.planCode

/-- What `handleRenewed` leaves. -/
def renewedBy (db : Db) (e : PaymentEvent) (now : Time) : Db :=
  if e.orderID ≠ "" then
    if db.renewalAmountMismatch e then db.anchor e.orderID e.paymentIntentRef
    else (db.anchor e.orderID e.paymentIntentRef).extendedBy e now
  else db.extendedBy e now

/-- What `handleCanceled` leaves. -/
def canceledBy (db : Db) (e : PaymentEvent) : Db :=
  match db.findWorkspaceBySubscription e.subscriptionRef with
  | none => db
  | some ws =>
    db.movePlan ws.id .unsubscribe (fun _ => Workspace.unsubscribe_id) "free"
      ("webhook:" ++ e.channel) ("subscription:" ++ e.subscriptionRef)

/-- What the handler of the event leaves, but for the mark of the event. -/
def handled (db : Db) (e : PaymentEvent) (now : Time) : Db :=
  match e.type with
  | .checkoutCompleted => db.paidBy e now
  | .paymentFailed => db.failedBy e
  | .refundCreated => db.refundedBy e now
  | .subscriptionRenewed => db.renewedBy e now
  | .subscriptionCanceled => db.canceledBy e
  | .other _ => db

/-- `InsertPaymentEvent` takes the event for a new one, or for one to process again. -/
def Accepts (db : Db) (e : PaymentEvent) : Prop :=
  match db.paymentEvent e.key with
  | none => e.orderID = "" ∨ (db.order e.orderID).isSome
  | some row => row.processStatus = .error

instance {db : Db} {e : PaymentEvent} : Decidable (db.Accepts e) := by
  unfold Accepts
  split <;> infer_instance

def withEvents (db : Db) (events : Keyed PaymentEventRow.key) : Db := { db with paymentEvents := events }

/-- The row of an accepted event. -/
def received (db : Db) (e : PaymentEvent) : Db :=
  if h : db.paymentEvents.get e.key = none then db.withEvents (db.paymentEvents.insert e.row h)
  else db.markEvent e.key .received none

variable {db : Db} {id ref ws : String} {f g : Workspace → Workspace} {hf : ∀ w, (f w).id = w.id}
  {hg : ∀ w, (g w).id = w.id}

@[simp] theorem workspace_record {ev : SubscriptionEvent} :
    (db.record ev).workspace id = db.workspace id := rfl

@[simp] theorem workspace_anchor : (db.anchor id ref).workspace ws = db.workspace ws := by
  unfold anchor
  split <;> rfl

@[simp] theorem plan_anchor {code : String} : (db.anchor id ref).plan code = db.plan code := by
  unfold anchor
  split <;> rfl

/-- The anchor changes no order, or one in its metadata. -/
theorem order_anchor_cases (id' : String) : (db.anchor id ref).order id' = db.order id' ∨
    ∃ o, db.order id' = some o ∧ (db.anchor id ref).order id' = some (o.setPaymentIntent ref) := by
  unfold anchor
  split
  · by_cases hid : id' = id
    · subst hid
      cases ho : db.order id' with
      | none => exact .inl (by simp [ho])
      | some o => exact .inr ⟨o, rfl, by simp [ho]⟩
    · exact .inl (order_setPaymentIntent_ne hid)
  · exact .inl rfl

theorem order_anchor {o : OrderRow} (h : db.order id = some o) :
    ∃ o', (db.anchor id ref).order id = some o' ∧ o'.status = o.status ∧
      o'.canceledBy = o.canceledBy := by
  rcases @order_anchor_cases db id ref id with h' | ⟨o₁, ho₁, h'⟩
  · exact ⟨o, h'.trans h, rfl, rfl⟩
  · cases h.symm.trans ho₁
    exact ⟨_, h', rfl, rfl⟩

theorem Consistent.anchor (h : db.Consistent) : (db.anchor id ref).Consistent := by
  unfold Db.anchor
  split
  · have hgrows : db.Grows (db.setPaymentIntent id ref) :=
      .of_updateOrders (.setPaymentIntent ref) (fun _ => rfl) (fun _ => ⟨rfl, rfl, rfl, rfl, rfl, rfl⟩) rfl rfl rfl
    exact hgrows.consistent h
  · exact h

/-- A change of an order is what it does to the row. -/
theorem updateOrder_congr {f g : OrderRow → OrderRow} {hf : ∀ o, (f o).id = o.id}
    {hg : ∀ o, (g o).id = o.id} {o : OrderRow} (h : db.order id = some o) (hfg : f o = g o) :
    db.updateOrder id f hf = db.updateOrder id g hg := by
  rw [updateOrder, updateOrder]
  congr 1
  refine Keyed.update_congr fun o' ho' hid => ?_
  have hget : db.order o'.id = some o' := Keyed.get_of_mem ho'
  rw [List.mem_singleton.1 hid, h] at hget
  cases hget
  exact hfg

theorem updateOrder_self {f : OrderRow → OrderRow} {hf : ∀ o, (f o).id = o.id} {o : OrderRow}
    (h : db.order id = some o) (hfo : f o = o) : db.updateOrder id f hf = db := by
  rw [updateOrder, Keyed.update_self]
  intro o' ho'
  cases h.symm.trans ho'
  exact hfo

/-- Two changes of one workspace row are one. -/
theorem movePlan_updateWorkspace {plan actor reason : String} :
    (db.movePlan ws f hf plan actor reason).updateWorkspace ws g hg
      = db.movePlan ws (fun w => g (f w)) (fun w => (hg _).trans (hf w)) plan actor reason := by
  simp [movePlan, updateWorkspace, record, Keyed.update_update]

@[simp] theorem subscriptionExpiry_movePlan {plan actor reason : String} {o : OrderRow} {now : Time} :
    (db.movePlan ws f hf plan actor reason).subscriptionExpiry o now = db.subscriptionExpiry o now :=
  rfl

theorem changePlan_eq_movePlan {plan actor reason : String} {w : Workspace}
    (h : db.workspace ws = some w) : db.changePlan ws w.planCode plan actor reason
      = db.movePlan ws (.setPlan plan) (fun _ => Workspace.setPlan_id) plan actor reason := by
  simp [changePlan, movePlan, planOf, h]

end Db

/-! ## Calls -/

section

variable {w : World} {event : PaymentEvent} {now : Time} {db : Db} {id ws ref plan actor reason : String}

@[simp] theorem orFail_ok {α : Type} {a : α} {k : α → Svc (Except Err Unit)} :
    orFail event (.ok a) k = k a := rfl

namespace Op

@[simp] theorem exec_getOrder : (getOrder id).exec w db = (.ok ((db.order id).map scanOrder), db) := rfl

@[simp] theorem exec_getPlan : (getPlan plan).exec w db = (.ok (db.plan plan), db) := rfl

@[simp] theorem exec_getWorkspacePlan :
    (getWorkspacePlan ws).exec w db = (.ok (db.planOf ws), db) := rfl

@[simp] theorem exec_getWorkspaceCancelRequested : (getWorkspaceCancelRequested ws).exec w db
    = (.ok ((db.workspace ws).bind Workspace.cancelRequestedAt), db) := rfl

@[simp] theorem exec_findWorkspaceBySubscription : (findWorkspaceBySubscription ref).exec w db
    = (.ok ((db.findWorkspaceBySubscription ref).map fun row => (row.id, row.planCode)), db) := rfl

@[simp] theorem exec_latestPaidOrderInterval : (latestPaidOrderInterval ws).exec w db
    = (.ok ((db.latestPaidOrder ws).map OrderRow.interval), db) := rfl

@[simp] theorem exec_setOrderPaymentIntentRef :
    (setOrderPaymentIntentRef id ref).exec w db = (.ok (), db.setPaymentIntent id ref) := rfl

@[simp] theorem exec_clearWorkspaceCancelRequested :
    (clearWorkspaceCancelRequested ws).exec w db = (.ok (), db.clearCancel ws) := rfl

/-- The database refuses no plan that exists. -/
theorem exec_changeWorkspacePlan {row : Workspace} (hws : db.workspace ws = some row)
    (hplan : (db.plan plan).isSome) : (changeWorkspacePlan ws plan actor reason now).exec w db
      = (.ok (), db.movePlan ws (.setPlan plan) (fun _ => Workspace.setPlan_id) plan actor reason) := by
  simp only [exec, hws, hplan, if_true, Db.changePlan_eq_movePlan hws]

theorem exec_setWorkspaceSubscription {t : Time} (hws : (db.workspace ws).isSome) :
    (setWorkspaceSubscription ws ref t now).exec w db = (.ok (), db.setSubscription ws ref t) := by
  simp only [exec, hws, if_true]

/-- An update of the status the order has. -/
theorem exec_updateOrderStatus {o : OrderRow} {next : OrderStatus} (ho : db.order id = some o) :
    (updateOrderStatus id o.status next now).exec w db = (.ok (), db.updateStatus id next now) := by
  simp [exec, guarded, ho]

/-- An update of a status the order does not have. -/
theorem exec_updateOrderStatus_conflict {o : OrderRow} {cur next : OrderStatus}
    (ho : db.order id = some o) (hcur : o.status ≠ cur) :
    (updateOrderStatus id cur next now).exec w db = (.error .statusConflict, db) := by
  simp [exec, guarded, ho, hcur]

end Op

@[simp] theorem Db.isSome_workspace_movePlan {f : Workspace → Workspace} {hf : ∀ w, (f w).id = w.id} :
    ((db.movePlan ws f hf plan actor reason).workspace id).isSome = (db.workspace id).isSome := by
  rw [movePlan, workspace_record, workspace, updateWorkspace, Keyed.get_update]
  split <;> simp [workspace]

end

/-! ## Handlers -/

section

variable {w : World} {event : PaymentEvent} {now : Time} {db : Db}

@[simp] theorem run_processed : (processed event).run (Op.exec w) db
    = (.ok (), db.markEvent event.key .processed none) := rfl

theorem run_clearCancel {ws : String} : (clearCancel event ws).run (Op.exec w) db
    = (.ok (), (db.clearCancel ws).markEvent event.key .processed none) := rfl

theorem run_resolveOrder : (resolveOrder event).run (Op.exec w) db
    = (.ok ((db.resolve event).map scanOrder), db) := by
  have hpi : ∀ pi, (if pi ≠ "" then op (.findOrderByPaymentIntent pi) else ret (.ok none) : Svc _).run
      (Op.exec w) db
      = (.ok ((db.orderOfPayment pi).map scanOrder), db) := by
    intro pi
    unfold Db.orderOfPayment
    split <;> rfl
  simp only [resolveOrder, Db.resolve, pure_eq]
  by_cases hid : event.orderID ≠ ""
  · rw [if_pos hid, if_pos hid]
    rfl
  · rw [if_neg hid, if_neg hid]
    by_cases href : event.channelRef ≠ ""
    · rw [if_pos href, if_pos href]
      simp only [bind_eq, op_bind, run_call, Op.exec]
      cases hf : db.findOrderByChannelRef event.channel event.channelRef with
      | none => exact hpi event.paymentRef
      | some o => rfl
    · rw [if_neg href, if_neg href]
      exact hpi event.paymentRef

theorem run_subscriptionExpiry {o : OrderRow} :
    (subscriptionExpiry (scanOrder o) now).run (Op.exec w) db = (db.subscriptionExpiry o now, db) := by
  simp only [subscriptionExpiry, bind_eq, op_bind, run_call, Op.exec, Db.subscriptionExpiry,
    Db.trialDays]
  cases hp : db.plan o.planCode <;> simp [hp]

theorem run_grant {o : OrderRow} {row : Workspace} (hws : db.workspace o.workspaceID = some row)
    (hplan : (db.plan o.planCode).isSome) : (grant event (scanOrder o) now).run (Op.exec w) db
      = (.ok (), (db.granted event o now).markEvent event.key .processed none) := by
  have hmove := @Op.exec_changeWorkspacePlan w now db o.workspaceID o.planCode
    ("webhook:" ++ event.channel) ("order:" ++ o.id) row hws hplan
  simp only [grant, bind_eq, op_bind, run_call, scanOrder_id, scanOrder_workspaceID,
    scanOrder_planCode, Op.exec_getWorkspacePlan, orFail_ok, hmove]
  by_cases hsub : event.subscriptionRef = ""
  · simp only [hsub, ne_eq, not_true_eq_false, if_false, run_clearCancel, Db.granted, Db.clearCancel,
      Db.movePlan_updateWorkspace, Workspace.grant_noRef]
  · have hsome : ((db.movePlan o.workspaceID (.setPlan o.planCode) (fun _ => Workspace.setPlan_id)
        o.planCode ("webhook:" ++ event.channel) ("order:" ++ o.id)).workspace o.workspaceID).isSome := by
      simp [hws]
    simp only [hsub, ne_eq, not_false_eq_true, if_true, run_bind, run_subscriptionExpiry, run_call,
      Op.exec_setWorkspaceSubscription hsome, orFail_ok, run_clearCancel, Db.setSubscription,
      Db.clearCancel, Db.movePlan_updateWorkspace, Db.granted, Db.subscriptionExpiry_movePlan,
      Workspace.grant_ref hsub]

/-- The order that is paid is the one of before, and its row may have changed since. -/
theorem run_pay {o cur : OrderRow} (hcur : db.order o.id = some cur)
    {row : Workspace} (hws : db.workspace o.workspaceID = some row)
    (hplan : (db.plan o.planCode).isSome) : (pay event (scanOrder o) now).run (Op.exec w) db
      = (.ok (), (if cur.Payable then
          (db.updateOrder o.id (.settle now) fun _ => OrderRow.settle_id).granted event o now
        else db).markEvent event.key .processed none) := by
  have hgrant : ∀ db' : Db, db'.workspaces = db.workspaces → db'.plans = db.plans →
      (grant event (scanOrder o) now).run (Op.exec w) db'
        = (.ok (), (db'.granted event o now).markEvent event.key .processed none) := by
    intro db' hw hp
    refine @run_grant w event now db' o row ?_ ?_
    · rw [Db.workspace, hw]
      exact hws
    · rw [Db.plan, hp]
      exact hplan
  have hconflict : cur.status ≠ .pending → (pay event (scanOrder o) now).run (Op.exec w) db
      = (notPending event (scanOrder o) now).run (Op.exec w) db := by
    intro h
    simp only [pay, bind_eq, op_bind, run_call, scanOrder_id,
      Op.exec_updateOrderStatus_conflict hcur h]
  have hread : (notPending event (scanOrder o) now).run (Op.exec w) db
      = (if cur.status = .paid then grant event (scanOrder o) now
        else if cur.status = .canceled then do
          orFail event (← Script.op (.reviveOrderAfterExpiry o.id now)) fun revived =>
            if revived then grant event (scanOrder o) now else processed event
        else processed event).run (Op.exec w) db := by
    simp [notPending, hcur]
  cases hs : cur.status with
  | pending =>
    have hp : cur.Payable := .inl hs
    have hexec := @Op.exec_updateOrderStatus w now db o.id cur .paid hcur
    rw [hs] at hexec
    rw [if_pos hp, Db.updateOrder_congr hcur (OrderRow.settle_pending hs)]
    · simp only [pay, bind_eq, op_bind, run_call, scanOrder_id, hexec]
      exact hgrant _ rfl rfl
  | paid =>
    have hp : cur.Payable := .inr (.inl hs)
    rw [hconflict (by simp [hs]), hread, if_pos hs, if_pos hp,
      Db.updateOrder_self hcur (OrderRow.settle_paid hs)]
    exact hgrant _ rfl rfl
  | canceled =>
    rw [hconflict (by simp [hs]), hread, if_neg (by simp [hs]), if_pos hs]
    by_cases hexp : cur.canceledBy = some .expiry
    · have hp : cur.Payable := .inr (.inr ⟨hs, hexp⟩)
      rw [if_pos hp, Db.updateOrder_congr hcur (OrderRow.settle_canceled hs)]
      simp only [bind_eq, op_bind, run_call, Op.exec, hcur, hs, hexp, and_self, if_true, orFail_ok]
      exact hgrant _ rfl rfl
    · have hp : ¬ cur.Payable := by simp [OrderRow.Payable, hs, hexp]
      simp [hcur, hs, hexp, hp, Op.exec]
  | failed =>
    have hp : ¬ cur.Payable := by simp [OrderRow.Payable, hs]
    rw [hconflict (by simp [hs]), hread]
    simp [hs, hp]
  | refunded =>
    have hp : ¬ cur.Payable := by simp [OrderRow.Payable, hs]
    rw [hconflict (by simp [hs]), hread]
    simp [hs, hp]

theorem Db.resolve_order {o : OrderRow} (h : db.resolve event = some o) : db.order o.id = some o := by
  have hpi : ∀ ref, db.orderOfPayment ref = some o → db.order o.id = some o := by
    intro ref href
    unfold orderOfPayment at href
    split at href
    · exact Keyed.get_of_mem (List.mem_of_mem_filter (Table.mem_of_first href))
    · cases href
  unfold resolve at h
  split at h
  · exact Keyed.get_of_mem (Keyed.mem_of_get h)
  · split at h
    · rcases Option.or_eq_some_iff.1 h with h | ⟨-, h⟩
      · exact Keyed.get_of_mem (Keyed.mem_of_find h).1
      · exact hpi _ h
    · exact hpi _ h

theorem run_handlePaid (hdb : db.Consistent) : (handlePaid event now).run (Op.exec w) db
    = (.ok (), (db.paidBy event now).markEvent event.key .processed none) := by
  simp only [handlePaid, bind_eq, run_bind, run_resolveOrder, orFail_ok]
  cases hres : db.resolve event with
  | none => simp [Db.paidBy, hres]
  | some o =>
    have ho := Db.resolve_order hres
    obtain ⟨row, hws⟩ := Option.isSome_iff_exists.1 (hdb.orderWorkspace _ _ ho)
    have hplan := hdb.orderPlan _ _ ho
    simp only [Option.map_some]
    by_cases hmis : amountMismatch (scanOrder o) event
    · simp [hmis, Db.paidBy, hres]
    · obtain ⟨cur, hcur, hstatus, hby⟩ := @Db.order_anchor db o.id event.paymentIntentRef o ho
      have hpay := @run_pay w event now (db.anchor o.id event.paymentIntentRef) o cur hcur row
        (by rw [Db.workspace_anchor]; exact hws) (by rw [Db.plan_anchor]; exact hplan)
      have hpayable : cur.Payable ↔ o.Payable := by
        simp only [OrderRow.Payable, hstatus, hby]
      simp only [hpayable] at hpay
      have hrun : (do
          if event.paymentIntentRef ≠ "" then do
            orFail event (← Script.op (.setOrderPaymentIntentRef o.id event.paymentIntentRef))
              fun () => pay event (scanOrder o) now
          else pay event (scanOrder o) now : Svc _).run (Op.exec w) db
          = (pay event (scanOrder o) now).run (Op.exec w) (db.anchor o.id event.paymentIntentRef) := by
        unfold Db.anchor
        split <;> rfl
      simp only [hmis, Bool.false_eq_true, if_false, scanOrder_id]
      rw [Db.paidBy, hres]
      simp only [hmis, Bool.false_eq_true, if_false]
      refine hrun.trans (hpay.trans ?_)
      split <;> rfl

theorem run_handleFailed : (handleFailed event now).run (Op.exec w) db
    = (.ok (), (db.failedBy event).markEvent event.key .processed none) := by
  simp only [handleFailed, bind_eq, run_bind, run_resolveOrder, orFail_ok, Db.failedBy]
  cases hres : db.resolve event with
  | none => rfl
  | some o =>
    have ho := Db.resolve_order hres
    simp only [Option.map_some, op_bind, run_call, Op.exec, Op.guarded, scanOrder_id, ho]
    by_cases hs : o.status = .pending
    · simp [hs]
    · simp [hs]

theorem run_revoke {o : OrderRow} {row : Workspace} (hws : db.workspace o.workspaceID = some row)
    (hfree : (db.plan "free").isSome) : (revoke event (scanOrder o) now).run (Op.exec w) db
      = (.ok (), (db.revoked event o).markEvent event.key .processed none) := by
  have hmove := @Op.exec_changeWorkspacePlan w now db o.workspaceID "free"
    ("webhook:" ++ event.channel) ("refund:" ++ o.id) row hws hfree
  simp only [revoke, bind_eq, op_bind, run_call, scanOrder_id, scanOrder_workspaceID, hmove, orFail_ok]
  by_cases hsub : event.subscriptionRef = ""
  · simp only [hsub, ne_eq, not_true_eq_false, if_false, run_processed, Db.revoked,
      Workspace.revoke_noRef]
  · have hsome : ((db.movePlan o.workspaceID (.setPlan "free") (fun _ => Workspace.setPlan_id) "free"
        ("webhook:" ++ event.channel) ("refund:" ++ o.id)).workspace o.workspaceID).isSome := by
      simp [hws]
    simp only [hsub, ne_eq, not_false_eq_true, if_true, run_call,
      Op.exec_setWorkspaceSubscription hsome, orFail_ok, run_clearCancel, Db.setSubscription,
      Db.clearCancel, Db.movePlan_updateWorkspace, Db.revoked, Workspace.revoke_ref hsub]
    rfl

theorem run_handleRefund (hdb : db.Consistent) : (handleRefund event now).run (Op.exec w) db
    = (.ok (), (db.refundedBy event now).markEvent event.key .processed none) := by
  simp only [handleRefund, bind_eq, run_bind, run_resolveOrder, orFail_ok, Db.refundedBy]
  cases hres : db.resolve event with
  | none => rfl
  | some o =>
    have ho := Db.resolve_order hres
    obtain ⟨row, hws⟩ := Option.isSome_iff_exists.1 (hdb.orderWorkspace _ _ ho)
    simp only [Option.map_some, op_bind, run_call, scanOrder_id]
    by_cases hs : o.status = .paid
    · have hexec := @Op.exec_updateOrderStatus w now db o.id o .refunded ho
      rw [hs] at hexec
      simp only [hexec, hs, if_true]
      exact @run_revoke w event now _ o row hws hdb.free
    · simp [Op.exec_updateOrderStatus_conflict ho hs, hs]

theorem run_renewalAmountMismatch : (renewalAmountMismatch event).run (Op.exec w) db
    = (.ok (db.renewalAmountMismatch event), db) := by
  unfold renewalAmountMismatch Db.renewalAmountMismatch
  by_cases hamount : event.amountCents ≤ 0
  · simp [hamount]
  · simp only [hamount, if_false, bind_eq, op_bind, run_call, Op.exec_getOrder]
    cases ho : db.order event.orderID with
    | none => rfl
    | some o =>
      simp only [Option.map_some, run_call, Op.exec_getPlan, scanOrder_planCode]
      cases hp : db.plan o.planCode with
      | none => rfl
      | some plan =>
        by_cases hprice : planAmountCents plan o.interval ≤ 0
        · have hprice' : planAmountCents plan (scanOrder o).interval ≤ 0 := hprice
          simp only [if_pos hprice, if_pos hprice']
          rfl
        · have hprice' : ¬ planAmountCents plan (scanOrder o).interval ≤ 0 := hprice
          simp only [if_neg hprice, if_neg hprice']
          rfl

theorem run_restorePlan (hdb : db.Consistent) {row : Workspace} {plan : String}
    (hws : db.workspace row.id = some row) : (restorePlan event row.id plan now).run (Op.exec w) db
      = (.ok (), (db.planRestored event row.id plan).markEvent event.key .processed none) := by
  unfold restorePlan Db.planRestored
  by_cases hfree : event.orderID ≠ "" ∧ plan = "free"
  · simp only [if_pos hfree, bind_eq, op_bind, run_call, Op.exec_getOrder, orFail_ok]
    cases ho : db.order event.orderID with
    | none => rfl
    | some o =>
      have hmove := @Op.exec_changeWorkspacePlan w now db row.id o.planCode
        ("webhook:" ++ event.channel) ("renewal:" ++ event.orderID) row hws (hdb.orderPlan _ _ ho)
      by_cases hplan : o.planCode ≠ "" ∧ o.planCode ≠ plan
      · have hplan' : (scanOrder o).planCode ≠ "" ∧ (scanOrder o).planCode ≠ plan := hplan
        simp only [Option.map_some, if_pos hplan, if_pos hplan', run_call]
        simp only [scanOrder_planCode, hmove, orFail_ok, run_processed]
      · have hplan' : ¬ ((scanOrder o).planCode ≠ "" ∧ (scanOrder o).planCode ≠ plan) := hplan
        simp only [Option.map_some, if_neg hplan, if_neg hplan', run_processed]
  · simp only [if_neg hfree, run_processed]

theorem Db.workspace_of_subscription {ref : String} {row : Workspace}
    (h : db.findWorkspaceBySubscription ref = some row) :
    db.workspace row.id = some row ∧ row.subscriptionRef.map Subtype.val = some ref :=
  ⟨Keyed.get_of_mem (Keyed.mem_of_find h).1, of_decide_eq_true (Keyed.mem_of_find h).2⟩

theorem run_extend (hdb : db.Consistent) : (extend event now).run (Op.exec w) db
    = (.ok (), (db.extendedBy event now).markEvent event.key .processed none) := by
  simp only [extend, bind_eq, op_bind, run_call, Op.exec_findWorkspaceBySubscription, orFail_ok,
    Db.extendedBy]
  cases hfound : db.findWorkspaceBySubscription event.subscriptionRef with
  | none => rfl
  | some row =>
    obtain ⟨hws, -⟩ := Db.workspace_of_subscription hfound
    have hsome : (db.workspace row.id).isSome := by simp [hws]
    have hcons : (db.setSubscription row.id event.subscriptionRef (db.renewalExpiry row.id now)).Consistent := by
      have hgrows : db.Grows (db.setSubscription row.id event.subscriptionRef
          (db.renewalExpiry row.id now)) :=
        .of_updateWorkspaces (.setSubscription event.subscriptionRef (db.renewalExpiry row.id now))
          (fun _ => Workspace.setSubscription_id) rfl rfl (fun _ => .inl rfl) rfl
      exact hgrows.consistent hdb
    have hrestore := @run_restorePlan w event now _ hcons
      (row.setSubscription event.subscriptionRef (db.renewalExpiry row.id now)) row.planCode
      (by simp [hws])
    simp only [Option.map_some, run_call, Op.exec_getWorkspaceCancelRequested,
      Op.exec_latestPaidOrderInterval, orFail_ok]
    have hset := @Op.exec_setWorkspaceSubscription w now db row.id event.subscriptionRef
      (db.renewalExpiry row.id now) hsome
    simp only [Db.renewalExpiry, Db.renewalInterval] at hset hrestore ⊢
    simp only [hset, orFail_ok]
    exact hrestore

theorem Db.renewalAmountMismatch_anchor {id ref : String} :
    (db.anchor id ref).renewalAmountMismatch event = db.renewalAmountMismatch event := by
  unfold renewalAmountMismatch
  rcases @Db.order_anchor_cases db id ref event.orderID with h | ⟨o, ho, h⟩
  · simp [h]
  · simp only [h, ho, plan_anchor]
    rfl

theorem run_handleRenewed (hdb : db.Consistent) : (handleRenewed event now).run (Op.exec w) db
    = (.ok (), (db.renewedBy event now).markEvent event.key .processed none) := by
  have hreconcile : ∀ db' : Db, db'.Consistent → (reconcile event now).run (Op.exec w) db'
      = (.ok (), (if db'.renewalAmountMismatch event then db' else db'.extendedBy event now).markEvent
          event.key .processed none) := by
    intro db' hdb'
    simp only [reconcile, bind_eq, run_bind, run_renewalAmountMismatch, orFail_ok]
    cases db'.renewalAmountMismatch event with
    | true => rfl
    | false => exact run_extend hdb'
  unfold handleRenewed Db.renewedBy
  by_cases hid : event.orderID = ""
  · simp only [hid, ne_eq, not_true_eq_false, if_false]
    exact run_extend hdb
  · have hrun := hreconcile (db.anchor event.orderID event.paymentIntentRef) hdb.anchor
    rw [Db.renewalAmountMismatch_anchor] at hrun
    simp only [hid, ne_eq, not_false_eq_true, if_true]
    refine Eq.trans ?_ hrun
    unfold Db.anchor
    split <;> rfl

theorem run_handleCanceled (hdb : db.Consistent) : (handleCanceled event now).run (Op.exec w) db
    = (.ok (), (db.canceledBy event).markEvent event.key .processed none) := by
  simp only [handleCanceled, bind_eq, op_bind, run_call, Op.exec_findWorkspaceBySubscription,
    orFail_ok, Db.canceledBy]
  cases hfound : db.findWorkspaceBySubscription event.subscriptionRef with
  | none => rfl
  | some row =>
    obtain ⟨hws, -⟩ := Db.workspace_of_subscription hfound
    have hmove := @Op.exec_changeWorkspacePlan w now db row.id "free" ("webhook:" ++ event.channel)
      ("subscription:" ++ event.subscriptionRef) row hws hdb.free
    have hsome : ((db.movePlan row.id (.setPlan "free") (fun _ => Workspace.setPlan_id) "free"
        ("webhook:" ++ event.channel)
        ("subscription:" ++ event.subscriptionRef)).workspace row.id).isSome := by
      simp [hws]
    simp only [Option.map_some, run_call, hmove, orFail_ok, Op.exec_setWorkspaceSubscription hsome,
      run_clearCancel, Db.setSubscription, Db.clearCancel, Db.movePlan_updateWorkspace]
    rfl

/-- A handler that no failing call stops comes to its end. -/
theorem run_handle (hdb : db.Consistent) : (handle event now).run (Op.exec w) db
    = (.ok (), (db.handled event now).markEvent event.key .processed none) := by
  unfold handle Db.handled
  cases event.type with
  | checkoutCompleted => exact run_handlePaid hdb
  | paymentFailed => exact run_handleFailed
  | refundCreated => exact run_handleRefund hdb
  | subscriptionRenewed => exact run_handleRenewed hdb
  | subscriptionCanceled => exact run_handleCanceled hdb
  | other name => rfl

/-! ## Deliveries -/

theorem Op.exec_insertPaymentEvent (h : db.Accepts event) :
    (insertPaymentEvent event).exec w db = (.ok true, db.received event) := by
  unfold Db.Accepts at h
  cases hrow : db.paymentEvent event.key with
  | none =>
    rw [hrow] at h
    have hnone : db.paymentEvents.get event.key = none := hrow
    have hfk : ¬ (event.orderID ≠ "" ∧ db.order event.orderID = none) := by
      rintro ⟨hid, ho⟩
      rcases h with h | h
      · exact hid h
      · simp [ho] at h
    simp only [exec, Db.received, hnone, dif_pos, hfk, if_false]
    rfl
  | some row =>
    rw [hrow] at h
    have hsome : db.paymentEvents.get event.key ≠ none := by
      intro hnone
      cases hnone.symm.trans hrow
    simp [exec, Db.received, hsome, hrow, show row.processStatus = .error from h]

/-- An event that is not accepted is a duplicate, or names an order that does not exist. -/
theorem Op.exec_insertPaymentEvent_refused (h : ¬ db.Accepts event) :
    ∃ r, r ≠ .ok true ∧ (insertPaymentEvent event).exec w db = (r, db) := by
  unfold Db.Accepts at h
  cases hrow : db.paymentEvent event.key with
  | none =>
    rw [hrow] at h
    have hnone : db.paymentEvents.get event.key = none := hrow
    have hfk : event.orderID ≠ "" ∧ db.order event.orderID = none := by
      simpa using h
    exact ⟨.error (Err.foreignKey "payment_event" "payment_event_order_id_fkey"), fun hok => (by cases hok),
      by simp only [exec, hnone, dif_pos, if_pos hfk]⟩
  | some row =>
    rw [hrow] at h
    have hsome : db.paymentEvents.get event.key ≠ none := by
      intro hnone
      cases hnone.symm.trans hrow
    exact ⟨.ok false, fun hok => (by cases hok), by simp [exec, hsome, hrow, show row.processStatus ≠ .error from h]⟩

section

variable {events : Keyed PaymentEventRow.key}

theorem Db.anchor_withEvents {id ref : String} :
    (db.withEvents events).anchor id ref = (db.anchor id ref).withEvents events := by
  unfold anchor
  split <;> rfl

theorem Db.planRestored_withEvents {ws plan : String} : (db.withEvents events).planRestored event ws plan
    = (db.planRestored event ws plan).withEvents events := by
  have horder : (db.withEvents events).order event.orderID = db.order event.orderID := rfl
  unfold planRestored
  split
  · rw [horder]
    cases db.order event.orderID with
    | none => rfl
    | some o =>
      simp only []
      split <;> rfl
  · rfl

theorem Db.extendedBy_withEvents :
    (db.withEvents events).extendedBy event now = (db.extendedBy event now).withEvents events := by
  have hfind : (db.withEvents events).findWorkspaceBySubscription event.subscriptionRef
    = db.findWorkspaceBySubscription event.subscriptionRef := rfl
  simp only [extendedBy, hfind]
  cases db.findWorkspaceBySubscription event.subscriptionRef with
  | none => rfl
  | some row =>
    exact @planRestored_withEvents event (db.setSubscription row.id event.subscriptionRef
      (db.renewalExpiry row.id now)) events row.id row.planCode

end

/-- The handlers do not look at the payment events. -/
theorem Db.handled_withEvents {events : Keyed PaymentEventRow.key} :
    (db.withEvents events).handled event now = (db.handled event now).withEvents events := by
  unfold handled
  cases event.type with
  | checkoutCompleted =>
    have hres : (db.withEvents events).resolve event = db.resolve event := rfl
    simp only [paidBy, hres]
    cases db.resolve event with
    | none => rfl
    | some o =>
      simp only []
      split
      · rfl
      · rw [anchor_withEvents]
        split <;> rfl
  | paymentFailed =>
    have hres : (db.withEvents events).resolve event = db.resolve event := rfl
    simp only [failedBy, hres]
    cases db.resolve event with
    | none => rfl
    | some o =>
      simp only []
      split <;> rfl
  | refundCreated =>
    have hres : (db.withEvents events).resolve event = db.resolve event := rfl
    simp only [refundedBy, hres]
    cases db.resolve event with
    | none => rfl
    | some o =>
      simp only []
      split <;> rfl
  | subscriptionRenewed =>
    have hmis : (db.withEvents events).renewalAmountMismatch event = db.renewalAmountMismatch event := rfl
    simp only [renewedBy, hmis, anchor_withEvents, extendedBy_withEvents]
    split
    · split <;> rfl
    · rfl
  | subscriptionCanceled =>
    have hfind : (db.withEvents events).findWorkspaceBySubscription event.subscriptionRef
      = db.findWorkspaceBySubscription event.subscriptionRef := rfl
    simp only [canceledBy, hfind]
    cases db.findWorkspaceBySubscription event.subscriptionRef <;> rfl
  | other name => rfl

theorem Db.Consistent.withEvents {events : Keyed PaymentEventRow.key} (h : db.Consistent) :
    (db.withEvents events).Consistent := ⟨h.free, h.orderPlan, h.orderWorkspace, h.workspacePlan⟩

theorem Db.received_eq : ∃ events, db.received event = db.withEvents events ∧
    ∀ k, k ≠ event.key → events.get k = db.paymentEvents.get k := by
  unfold received
  split
  · refine ⟨_, rfl, fun k hk => ?_⟩
    exact Keyed.get_insert.trans (if_neg fun h => hk h.symm)
  · exact ⟨_, rfl, fun k hk => Keyed.get_update_ne _ hk⟩

/-- What the delivery of an event leaves when no call fails. -/
def delivered (w : World) (event : PaymentEvent) (now : Time) (db : Db) : Db :=
  ((deliver event now).run (Op.exec w) db).2

/-- An accepted event is handled, and any other changes nothing. -/
theorem run_deliver (hdb : db.Consistent) (h : db.Accepts event) :
    ∃ events, (deliver event now).run (Op.exec w) db
      = (.ok (), (db.handled event now).withEvents events) ∧
        ∀ k, k ≠ event.key → events.get k = db.paymentEvents.get k := by
  obtain ⟨events, hrec, hother⟩ := @Db.received_eq event db
  simp only [deliver, bind_eq, op_bind, run_call, Op.exec_insertPaymentEvent h, hrec,
    run_handle hdb.withEvents, Db.handled_withEvents]
  exact ⟨_, rfl, fun k hk => (Keyed.get_update_ne _ hk).trans (hother k hk)⟩

theorem delivered_accepted (hdb : db.Consistent) (h : db.Accepts event) :
    ∃ events, delivered w event now db = (db.handled event now).withEvents events := by
  obtain ⟨events, hrun, -⟩ := @run_deliver w event now db hdb h
  exact ⟨events, by rw [delivered, hrun]⟩

theorem run_deliver_refused (h : ¬ db.Accepts event) :
    ∃ r, (deliver event now).run (Op.exec w) db = (r, db) := by
  obtain ⟨r, hr, hexec⟩ := @Op.exec_insertPaymentEvent_refused w event db h
  simp only [deliver, bind_eq, op_bind, run_call, hexec]
  rcases r with err | _ | _
  · exact ⟨_, rfl⟩
  · exact ⟨_, rfl⟩
  · exact absurd rfl hr

theorem delivered_refused (h : ¬ db.Accepts event) : delivered w event now db = db := by
  obtain ⟨r, hrun⟩ := @run_deliver_refused w event now db h
  rw [delivered, hrun]

theorem delivered_grows : db.Grows (delivered w event now db) :=
  @Db.Grows.of_path w anyFails _ _ _ _ _ (run_path (fun o s => Faulty.of_exec o s) _ _)

/-- An event stays accepted while others are delivered. -/
theorem Db.Accepts.delivered {e : PaymentEvent} (hdb : db.Consistent) (h : db.Accepts e)
    (hkey : e.key ≠ event.key) : (delivered w event now db).Accepts e := by
  by_cases haccept : db.Accepts event
  · obtain ⟨events, hrun, hother⟩ := @run_deliver w event now db hdb haccept
    have horder : (db.order e.orderID).isSome → ((Billing.delivered w event now db).order e.orderID).isSome := by
      intro hsome
      obtain ⟨o, ho⟩ := Option.isSome_iff_exists.1 hsome
      obtain ⟨o', ho', -⟩ := (@delivered_grows w event now db).orders _ o ho
      exact Option.isSome_iff_exists.2 ⟨o', ho'⟩
    have hevent : (Billing.delivered w event now db).paymentEvent e.key = db.paymentEvent e.key := by
      rw [Billing.delivered, hrun]
      exact hother _ hkey
    unfold Accepts at h ⊢
    rw [hevent]
    cases hrow : db.paymentEvent e.key with
    | none =>
      rw [hrow] at h
      exact h.imp_right horder
    | some row =>
      rw [hrow] at h
      exact h
  · rw [delivered_refused haccept]
    exact h

end

end Ploykit.Billing

import Ploykit.Billing.Handlers

/-!
# Rows and refunds

Every handler changes the row of one order and the row of one workspace at most.
`handleRefund` looks at the order of the event alone: it downgrades the workspace
of a paid order, whatever the workspace has been granted since.
-/

namespace Ploykit.Billing

open Lib Script

namespace Db

variable {db : Db} {e : PaymentEvent} {now : Time} {id ws ref plan actor reason : String}

/-! ## Changes of plan -/

section

variable {f : Workspace → Workspace} {hf : ∀ w, (f w).id = w.id}

theorem workspace_movePlan :
    (db.movePlan ws f hf plan actor reason).workspace ws = (db.workspace ws).map f :=
  Keyed.get_update_self hf

theorem workspace_movePlan_ne (h : id ≠ ws) :
    (db.movePlan ws f hf plan actor reason).workspace id = db.workspace id :=
  Keyed.get_update_ne hf h

@[simp] theorem order_movePlan :
    (db.movePlan ws f hf plan actor reason).order id = db.order id := rfl

end

theorem workspace_setSubscription_ne {t : Time} (h : id ≠ ws) :
    (db.setSubscription ws ref t).workspace id = db.workspace id :=
  Keyed.get_update_ne (fun _ => Workspace.setSubscription_id (t := t)) h

/-! ## Payments -/

/-- The event pays for the order. -/
structure Grants (db : Db) (e : PaymentEvent) (o : OrderRow) : Prop where
  resolves : db.resolve e = some o
  amount : amountMismatch (scanOrder o) e = false
  payable : o.Payable

instance {o : OrderRow} : Decidable (db.Grants e o) :=
  decidable_of_iff (db.resolve e = some o ∧ amountMismatch (scanOrder o) e = false ∧ o.Payable)
    ⟨fun ⟨h₁, h₂, h₃⟩ => ⟨h₁, h₂, h₃⟩, fun ⟨h₁, h₂, h₃⟩ => ⟨h₁, h₂, h₃⟩⟩

theorem Grants.paidBy {o : OrderRow} (h : db.Grants e o) : db.paidBy e now
    = ((db.anchor o.id e.paymentIntentRef).updateOrder o.id (.settle now) fun _ =>
        OrderRow.settle_id).granted e o now := by
  simp only [Db.paidBy, h.resolves, h.amount, Bool.false_eq_true, if_false, if_pos h.payable]

theorem Grants.workspace_paidBy {o : OrderRow} (h : db.Grants e o) :
    (db.paidBy e now).workspace o.workspaceID = (db.workspace o.workspaceID).map
      (.grant o.planCode e.subscriptionRef (db.subscriptionExpiry o now)) := by
  rw [h.paidBy, granted, workspace_movePlan, workspace_updateOrder, workspace_anchor]
  unfold subscriptionExpiry trialDays
  rw [plan_updateOrder, plan_anchor]

/-- The workspace of the paid order, and no other. -/
theorem workspace_paidBy : (db.paidBy e now).workspace id = db.workspace id ∨
    ∃ o, db.Grants e o ∧ o.workspaceID = id := by
  cases hres : db.resolve e with
  | none =>
    refine .inl ?_
    simp only [paidBy, hres]
  | some o =>
    by_cases hamount : amountMismatch (scanOrder o) e
    · refine .inl ?_
      simp only [paidBy, hres, if_pos hamount]
    · by_cases hpay : o.Payable
      · have hgrants : db.Grants e o := ⟨hres, by simpa using hamount, hpay⟩
        by_cases hid : id = o.workspaceID
        · exact .inr ⟨o, hgrants, hid.symm⟩
        · refine .inl ?_
          rw [hgrants.paidBy, granted, workspace_movePlan_ne hid, workspace_updateOrder,
            workspace_anchor]
      · refine .inl ?_
        simp only [paidBy, hres, if_neg hamount, if_neg hpay, workspace_anchor]

theorem Grants.workspace_paidBy_ne {o : OrderRow} (h : db.Grants e o) (hid : id ≠ o.workspaceID) :
    (db.paidBy e now).workspace id = db.workspace id := by
  rcases @Db.workspace_paidBy db e now id with hsame | ⟨o', hgrants, hws⟩
  · exact hsame
  · cases h.resolves.symm.trans hgrants.resolves
    exact absurd hws.symm hid

/-! ## Refunds -/

/-- The workspace of the refunded order, and no other. -/
theorem workspace_refundedBy : (db.refundedBy e now).workspace id = db.workspace id ∨
    ∃ o, db.resolve e = some o ∧ o.status = .paid ∧ o.workspaceID = id ∧
      (db.refundedBy e now).workspace id = (db.workspace id).map (.revoke e.subscriptionRef) := by
  unfold refundedBy
  cases hres : db.resolve e with
  | none => exact .inl rfl
  | some o =>
    by_cases hpaid : o.status = .paid
    · simp only [if_pos hpaid]
      by_cases hid : id = o.workspaceID
      · subst hid
        exact .inr ⟨o, rfl, hpaid, rfl, workspace_movePlan⟩
      · exact .inl (workspace_movePlan_ne hid)
    · refine .inl ?_
      simp only [if_neg hpaid]

/-! ## Renewals -/

/-- The plan of a renewed workspace that is on the plan. -/
def restoredPlan (db : Db) (e : PaymentEvent) (plan : String) : String :=
  if e.orderID ≠ "" ∧ plan = "free" then
    match db.order e.orderID with
    | none => plan
    | some o => if o.planCode ≠ "" then o.planCode else plan
  else plan

theorem restoredPlan_self (h : ∀ o, db.order e.orderID = some o → o.planCode = plan) :
    db.restoredPlan e plan = plan := by
  unfold restoredPlan
  split
  · cases ho : db.order e.orderID with
    | none => rfl
    | some o => simp only [h o ho, ite_self]
  · rfl

theorem workspace_planRestored {row : Workspace} (h : db.workspace ws = some row) :
    (db.planRestored e ws row.planCode).workspace ws
      = some (row.setPlan (db.restoredPlan e row.planCode)) := by
  have hself : row.setPlan row.planCode = row := rfl
  unfold planRestored restoredPlan
  by_cases hfree : e.orderID ≠ "" ∧ row.planCode = "free"
  · simp only [if_pos hfree]
    cases ho : db.order e.orderID with
    | none => exact h
    | some o =>
      by_cases hempty : o.planCode = ""
      · simpa only [hempty, ne_eq, not_true_eq_false, false_and, if_false, hself] using h
      · by_cases hsame : o.planCode = row.planCode
        · simpa only [hsame, ne_eq, not_true_eq_false, and_false, if_false, ite_self, hself] using h
        · simp only [hempty, hsame, ne_eq, not_false_eq_true, and_self, if_true]
          rw [workspace_movePlan, h]
          rfl
  · simp only [if_neg hfree]
    exact h

theorem workspace_planRestored_ne (h : id ≠ ws) :
    (db.planRestored e ws plan).workspace id = db.workspace id := by
  unfold planRestored
  split
  · split
    · rfl
    · split
      · exact workspace_movePlan_ne h
      · rfl
  · rfl

/-- The renewed workspace. -/
theorem workspace_extendedBy {row : Workspace}
    (h : db.findWorkspaceBySubscription e.subscriptionRef = some row) :
    (db.extendedBy e now).workspace row.id
      = some ((row.setSubscription e.subscriptionRef (db.renewalExpiry row.id now)).setPlan
          (db.restoredPlan e row.planCode)) := by
  have hrow : (db.setSubscription row.id e.subscriptionRef (db.renewalExpiry row.id now)).workspace
      row.id = some (row.setSubscription e.subscriptionRef (db.renewalExpiry row.id now)) := by
    rw [workspace_setSubscription, (workspace_of_subscription h).1]
    rfl
  simp only [extendedBy, h]
  exact workspace_planRestored hrow

theorem workspace_extendedBy_ne {row : Workspace}
    (h : db.findWorkspaceBySubscription e.subscriptionRef = some row) (hid : id ≠ row.id) :
    (db.extendedBy e now).workspace id = db.workspace id := by
  simp only [extendedBy, h]
  rw [workspace_planRestored_ne hid, workspace_setSubscription_ne hid]

theorem extendedBy_none (h : db.findWorkspaceBySubscription e.subscriptionRef = none) :
    db.extendedBy e now = db := by
  simp only [extendedBy, h]

/-! ### The anchor of a renewal -/

theorem findWorkspaceBySubscription_anchor {sub : String} :
    (db.anchor id ref).findWorkspaceBySubscription sub = db.findWorkspaceBySubscription sub := by
  unfold anchor
  split <;> rfl

theorem restoredPlan_anchor : (db.anchor id ref).restoredPlan e plan = db.restoredPlan e plan := by
  unfold restoredPlan
  rcases @order_anchor_cases db id ref e.orderID with h | ⟨o, ho, h⟩
  · rw [h]
  · rw [h, ho]
    rfl

theorem latestPaidOrder_setPaymentIntent : (db.setPaymentIntent id ref).latestPaidOrder ws
    = (db.latestPaidOrder ws).map fun o => if o.id ∈ [id] then o.setPaymentIntent ref else o :=
  Keyed.first_update (fun _ => @OrderRow.setPaymentIntent_id _ ref) (fun _ _ _ => rfl)
    fun _ _ => ⟨rfl, rfl⟩

theorem renewalInterval_anchor : (db.anchor id ref).renewalInterval ws = db.renewalInterval ws := by
  unfold anchor
  split
  · unfold renewalInterval
    rw [latestPaidOrder_setPaymentIntent]
    cases db.latestPaidOrder ws with
    | none => rfl
    | some o =>
      simp only [Option.map_some]
      split <;> rfl
  · rfl

theorem renewalExpiry_anchor : (db.anchor id ref).renewalExpiry ws now = db.renewalExpiry ws now := by
  rw [renewalExpiry, renewalInterval_anchor, renewalExpiry]

theorem workspace_extendedBy_anchor :
    ((db.anchor id ref).extendedBy e now).workspace ws = (db.extendedBy e now).workspace ws := by
  cases hfound : db.findWorkspaceBySubscription e.subscriptionRef with
  | none =>
    rw [extendedBy_none hfound, extendedBy_none (findWorkspaceBySubscription_anchor.trans hfound),
      workspace_anchor]
  | some row =>
    have hfound' : (db.anchor id ref).findWorkspaceBySubscription e.subscriptionRef = some row :=
      findWorkspaceBySubscription_anchor.trans hfound
    by_cases hws : ws = row.id
    · rw [hws, workspace_extendedBy hfound, workspace_extendedBy hfound', renewalExpiry_anchor,
        restoredPlan_anchor]
    · rw [workspace_extendedBy_ne hfound hws, workspace_extendedBy_ne hfound' hws, workspace_anchor]

/-- The renewal is refused for its amount. -/
def RefusesRenewal (db : Db) (e : PaymentEvent) : Prop :=
  e.orderID ≠ "" ∧ db.renewalAmountMismatch e

instance : Decidable (db.RefusesRenewal e) := by unfold RefusesRenewal; infer_instance

/-- The workspaces that a renewal leaves: those of `extendedBy`, unless it is refused. -/
theorem workspace_renewedBy : (db.renewedBy e now).workspace ws
    = if db.RefusesRenewal e then db.workspace ws else (db.extendedBy e now).workspace ws := by
  unfold renewedBy
  by_cases hid : e.orderID ≠ ""
  · by_cases hmis : db.renewalAmountMismatch e
    · have hrefuses : db.RefusesRenewal e := ⟨hid, hmis⟩
      rw [if_pos hid, if_pos hmis, if_pos hrefuses, workspace_anchor]
    · have haccepts : ¬ db.RefusesRenewal e := fun h => hmis h.2
      rw [if_pos hid, if_neg hmis, if_neg haccepts, workspace_extendedBy_anchor]
  · have haccepts : ¬ db.RefusesRenewal e := fun h => hid h.1
    rw [if_neg hid, if_neg haccepts]

/-! ## Cancellations -/

theorem workspace_canceledBy {row : Workspace}
    (h : db.findWorkspaceBySubscription e.subscriptionRef = some row) :
    (db.canceledBy e).workspace row.id = some row.unsubscribe := by
  simp only [canceledBy, h]
  rw [workspace_movePlan, (workspace_of_subscription h).1]
  rfl

theorem workspace_canceledBy_ne {row : Workspace}
    (h : db.findWorkspaceBySubscription e.subscriptionRef = some row) (hid : id ≠ row.id) :
    (db.canceledBy e).workspace id = db.workspace id := by
  simp only [canceledBy, h]
  exact workspace_movePlan_ne hid

theorem canceledBy_none (h : db.findWorkspaceBySubscription e.subscriptionRef = none) :
    db.canceledBy e = db := by
  simp only [canceledBy, h]

end Db

/-! ## One row of each table -/

/-- The order that a payment is anchored to. -/
def OrderRow.anchor (ref : String) (o : OrderRow) : OrderRow :=
  if ref ≠ "" then o.setPaymentIntent ref else o

theorem OrderRow.anchor_status {ref : String} {o : OrderRow} : (o.anchor ref).status = o.status := by
  unfold anchor
  split <;> rfl

/-- The order `id` is changed by `f` and the workspace `ws` by `g`, and all others stay. -/
structure Db.Touches (db db' : Db) (id : String) (f : OrderRow → OrderRow) (ws : String)
    (g : Workspace → Workspace) : Prop where
  order : db'.order id = (db.order id).map f
  orders : ∀ id', id' ≠ id → db'.order id' = db.order id'
  workspace : db'.workspace ws = (db.workspace ws).map g
  workspaces : ∀ ws', ws' ≠ ws → db'.workspace ws' = db.workspace ws'

namespace Db

variable {db db' : Db} {e : PaymentEvent} {now : Time} {id ref ws : String} {o : OrderRow}
  {f : OrderRow → OrderRow} {g : Workspace → Workspace}

theorem Touches.of_order (horder : db'.order id = (db.order id).map f)
    (horders : ∀ id', id' ≠ id → db'.order id' = db.order id') (hws : db'.workspaces = db.workspaces) :
    db.Touches db' id f ws fun w => w where
  order := horder
  orders := horders
  workspace := by rw [Option.map_id', Db.workspace, hws]; rfl
  workspaces _ _ := by rw [Db.workspace, hws]; rfl

theorem order_anchor_self : (db.anchor id ref).order id = (db.order id).map (.anchor ref) := by
  unfold anchor
  split
  · rename_i href
    have hf : OrderRow.anchor ref = .setPaymentIntent ref := by
      funext o
      exact if_pos href
    rw [order_setPaymentIntent, hf]
  · rename_i href
    have hf : OrderRow.anchor ref = fun o => o := by
      funext o
      exact if_neg href
    rw [hf, Option.map_id']

theorem order_anchor_ne {id' : String} (h : id' ≠ id) :
    (db.anchor id ref).order id' = db.order id' := by
  unfold anchor
  split
  · exact order_setPaymentIntent_ne h
  · rfl

theorem workspaces_anchor : (db.anchor id ref).workspaces = db.workspaces := by
  unfold anchor
  split <;> rfl

theorem touches_anchor : db.Touches (db.anchor id ref) id (.anchor ref) ws fun w => w :=
  .of_order order_anchor_self (fun _ h => order_anchor_ne h) workspaces_anchor

theorem Grants.touches (h : db.Grants e o) : db.Touches (db.paidBy e now) o.id
    (fun o => (o.anchor e.paymentIntentRef).settle now) o.workspaceID
    (.grant o.planCode e.subscriptionRef (db.subscriptionExpiry o now)) where
  order := by
    rw [h.paidBy, granted, order_movePlan, order_updateOrder fun _ => OrderRow.settle_id,
      order_anchor_self, Option.map_map]
    rfl
  orders id' hid := by
    rw [h.paidBy, granted, order_movePlan, order_updateOrder_ne (fun _ => OrderRow.settle_id) hid,
      order_anchor_ne hid]
  workspace := h.workspace_paidBy
  workspaces _ hws := h.workspace_paidBy_ne hws

/-- A payment for an order that takes none any more. -/
theorem touches_paidBy (hres : db.resolve e = some o) (hamount : amountMismatch (scanOrder o) e = false)
    (hpay : ¬ o.Payable) :
    db.Touches (db.paidBy e now) o.id (.anchor e.paymentIntentRef) ws fun w => w := by
  have hpaid : db.paidBy e now = db.anchor o.id e.paymentIntentRef := by
    simp only [paidBy, hres, hamount, Bool.false_eq_true, if_false, if_neg hpay]
  rw [hpaid]
  exact touches_anchor

theorem touches_failedBy (hres : db.resolve e = some o) (hpending : o.status = .pending) :
    db.Touches (db.failedBy e) o.id .fail ws fun w => w := by
  simp only [failedBy, hres, if_pos hpending]
  exact .of_order (order_updateOrder fun _ => OrderRow.fail_id)
    (fun _ h => order_updateOrder_ne (fun _ => OrderRow.fail_id) h) rfl

theorem touches_refundedBy (hres : db.resolve e = some o) (hpaid : o.status = .paid) :
    db.Touches (db.refundedBy e now) o.id (.setStatus .refunded now) o.workspaceID
      (.revoke e.subscriptionRef) := by
  simp only [refundedBy, hres, if_pos hpaid]
  exact ⟨order_updateStatus, fun _ h => order_updateOrder_ne (fun _ => OrderRow.setStatus_id) h,
    workspace_movePlan, fun _ h => workspace_movePlan_ne h⟩

theorem order_extendedBy : (db.extendedBy e now).order id = db.order id := by
  unfold extendedBy planRestored
  split
  · rfl
  · split
    · split
      · rfl
      · split <;> rfl
    · rfl

/-- A renewal that is not refused. -/
theorem touches_renewedBy {row : Workspace} (haccept : ¬ db.RefusesRenewal e)
    (hfound : db.findWorkspaceBySubscription e.subscriptionRef = some row) :
    db.Touches (db.renewedBy e now) e.orderID
      (.anchor (if e.orderID ≠ "" then e.paymentIntentRef else "")) row.id
      (fun row => (row.setSubscription e.subscriptionRef (db.renewalExpiry row.id now)).setPlan
        (db.restoredPlan e row.planCode)) where
  order := by
    unfold renewedBy
    split
    · split
      · exact order_anchor_self
      · rw [order_extendedBy, order_anchor_self]
    · rw [order_extendedBy]
      exact Option.map_id'.symm
  orders id' hid := by
    unfold renewedBy
    split
    · split
      · exact order_anchor_ne hid
      · rw [order_extendedBy, order_anchor_ne hid]
    · rw [order_extendedBy]
  workspace := by
    rw [workspace_renewedBy, if_neg haccept, workspace_extendedBy hfound,
      (workspace_of_subscription hfound).1]
    rfl
  workspaces ws hws := by
    rw [workspace_renewedBy, if_neg haccept, workspace_extendedBy_ne hfound hws]

/-- A renewal that is refused, or finds no workspace. -/
theorem touches_renewedBy_refused (h : db.RefusesRenewal e ∨
      db.findWorkspaceBySubscription e.subscriptionRef = none) :
    db.Touches (db.renewedBy e now) e.orderID
      (.anchor (if e.orderID ≠ "" then e.paymentIntentRef else "")) ws fun w => w := by
  have hrenewed : db.renewedBy e now
      = db.anchor e.orderID (if e.orderID ≠ "" then e.paymentIntentRef else "") := by
    unfold renewedBy
    by_cases hid : e.orderID ≠ ""
    · rw [if_pos hid, if_pos hid]
      rcases h with ⟨-, hmis⟩ | hnone
      · rw [if_pos hmis]
      · rw [extendedBy_none (findWorkspaceBySubscription_anchor.trans hnone), ite_self]
    · rw [if_neg hid, if_neg hid]
      rcases h with ⟨hid', -⟩ | hnone
      · exact absurd hid' hid
      · rw [extendedBy_none hnone]
        rfl
  rw [hrenewed]
  exact touches_anchor

theorem touches_canceledBy {row : Workspace}
    (hfound : db.findWorkspaceBySubscription e.subscriptionRef = some row) :
    db.Touches (db.canceledBy e) id (fun o => o) row.id .unsubscribe := by
  have horder : ∀ id, (db.canceledBy e).order id = db.order id := by
    intro id
    simp only [canceledBy, hfound]
    rfl
  refine ⟨by rw [horder, Option.map_id'], fun id' _ => horder id', ?_, fun ws hws => ?_⟩
  · rw [workspace_canceledBy hfound, (workspace_of_subscription hfound).1]
    rfl
  · exact workspace_canceledBy_ne hfound hws

end Db

/-! ## Entitlements -/

/-- The order with which the plan of the event was bought. -/
def SubscriptionEvent.boughtWith (ev : SubscriptionEvent) : Option String :=
  (Strings.cutPrefix ev.reason "order:").or (Strings.cutPrefix ev.reason "renewal:")

/-- The order that the current plan of the workspace comes from: the one its last
change of plan was bought with. -/
def Db.entitledBy (db : Db) (ws : String) : Option OrderRow :=
  (db.subscriptionEvents.filter fun ev => ev.workspaceID = ws).getLast?.bind fun ev =>
    ev.boughtWith.bind db.order

/-! ## What a refund changes -/

/-- A refund event changes a workspace only if it resolves to a paid order of that
workspace. The plan becomes the free one; the expiry, the subscription reference
and the cancel mark stay, or are cleared if the event names a subscription. -/
theorem refund_touches {db : Db} (hdb : Reachable db) {e : PaymentEvent}
    (htype : e.type = .refundCreated) (w : World) (now : Time) {id : String} {row row' : Workspace}
    (hrow : db.workspace id = some row) (hrow' : (delivered w e now db).workspace id = some row')
    (hne : row' ≠ row) :
    ∃ o, db.resolve e = some o ∧ o.status = .paid ∧ o.workspaceID = id ∧ row'.planCode = "free" ∧
      (e.subscriptionRef = "" → row'.planExpiresAt = row.planExpiresAt ∧
        row'.subscriptionRef = row.subscriptionRef ∧ row'.cancelRequestedAt = row.cancelRequestedAt) ∧
      (e.subscriptionRef ≠ "" → row'.planExpiresAt = none ∧ row'.subscriptionRef = none ∧
        row'.cancelRequestedAt = none) := by
  by_cases haccept : db.Accepts e
  · obtain ⟨events, hdeliv⟩ := @delivered_accepted w e now db hdb.consistent haccept
    have hhandled : db.handled e now = db.refundedBy e now := by simp [Db.handled, htype]
    rw [hdeliv, hhandled] at hrow'
    rcases @Db.workspace_refundedBy db e now id with hsame | ⟨o, hres, hpaid, hws, hrevoked⟩
    · cases hrow.symm.trans (hsame.symm.trans hrow')
      exact absurd rfl hne
    · have hrow'' := hrevoked.symm.trans hrow'
      rw [hrow, Option.map_some, Option.some.injEq] at hrow''
      subst hrow''
      refine ⟨o, hres, hpaid, hws, ?_, fun hsub => ?_, fun hsub => ?_⟩
      · unfold Workspace.revoke
        split <;> rfl
      · rw [hsub, Workspace.revoke_noRef]
        exact ⟨rfl, rfl, rfl⟩
      · rw [Workspace.revoke_ref hsub]
        exact ⟨rfl, rfl, rfl⟩
  · rw [delivered_refused haccept] at hrow'
    cases hrow.symm.trans hrow'
    exact absurd rfl hne

/-- A monthly order of the workspace is paid, and a yearly one after it. -/
def twoOrders : Db :=
  serveAll (smallWorld 5) [.buy "w1" .monthly "stripe" 10, .buy "w1" .yearly "stripe" 11,
    .ofEvent { channel := "stripe", channelEventID := "e1", type := .checkoutCompleted, orderID := "o1",
               subscriptionRef := "s1", amountCents := 900 } 20,
    .ofEvent { channel := "stripe", channelEventID := "e2", type := .checkoutCompleted, orderID := "o2",
               subscriptionRef := "s2", amountCents := 9000 } 30] (smallDb 0)

theorem twoOrders_reachable : Reachable twoOrders := (smallDb_installed 0).reachable.serveAll

/-- The refund of the first order. -/
def refundOfFirst : PaymentEvent where
  channel := "stripe"
  channelEventID := "e3"
  type := .refundCreated
  orderID := "o1"

theorem refund_touches_twoOrders : ∃ row row', twoOrders.workspace "w1" = some row ∧
    (delivered (smallWorld 5) refundOfFirst 40 twoOrders).workspace "w1" = some row' ∧
    ∃ o, twoOrders.resolve refundOfFirst = some o ∧ o.status = .paid ∧ o.workspaceID = "w1" ∧
      row'.planCode = "free" ∧ row'.planExpiresAt = row.planExpiresAt := by
  refine ⟨_, _, rfl, rfl, ?_⟩
  obtain ⟨o, hres, hpaid, hws, hplan, hkeep, -⟩ := @refund_touches _ twoOrders_reachable
    refundOfFirst rfl (smallWorld 5) 40 "w1" _ _ rfl rfl (by decide)
  exact ⟨o, hres, hpaid, hws, hplan, (hkeep rfl).1⟩

/-- The refund of an order that another order has superseded downgrades the workspace. -/
theorem refund_superseded : ∃ db w e now o o', Reachable db ∧ e.type = .refundCreated ∧
    db.resolve e = some o ∧ db.entitledBy o.workspaceID = some o' ∧ o'.id ≠ o.id ∧
    ((delivered w e now db).workspace o.workspaceID).map Workspace.planCode
      ≠ (db.workspace o.workspaceID).map Workspace.planCode :=
  ⟨twoOrders, smallWorld 5, refundOfFirst, 40, _, _, twoOrders_reachable, rfl, rfl, rfl, by decide,
    by decide⟩

end Ploykit.Billing

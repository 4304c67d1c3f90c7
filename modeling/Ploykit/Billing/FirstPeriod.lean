import Ploykit.Billing.Renewals

/-!
# The first period

A channel reports the first payment of a subscription twice: as a completed
checkout, and as the renewal of its first invoice. Each handler computes the end
of the period its own way.
-/

namespace Ploykit.Billing

open Lib Script

/-- What a workspace is entitled to. -/
def Workspace.entitlement (w : Workspace) : String × Option SubscriptionRef × Option Time :=
  (w.planCode, w.subscriptionRef, w.planExpiresAt)

/-- The event names the order, by its id or by the reference of its checkout session. -/
def Db.Names (db : Db) (e : PaymentEvent) (o : OrderRow) : Prop :=
  e.orderID ≠ "" ∧ db.order e.orderID = some o ∨
    e.orderID = "" ∧ e.channelRef ≠ "" ∧ db.findOrderByChannelRef e.channel e.channelRef = some o

instance {db : Db} {e : PaymentEvent} {o : OrderRow} : Decidable (db.Names e o) := by
  unfold Db.Names
  infer_instance

section

variable {db : Db} {e : PaymentEvent} {o : OrderRow} {w : World} {now : Time} {ref : String}

theorem Db.Names.resolve (h : db.Names e o) : db.resolve e = some o := by
  rcases h with ⟨hid, ho⟩ | ⟨hid, href, ho⟩
  · rw [Db.resolve, if_pos hid, ho]
  · rw [Db.resolve, if_neg (not_not.2 hid), if_pos href, ho]
    rfl

theorem Db.Names.order (h : db.Names e o) : db.order o.id = some o := Db.resolve_order h.resolve

/-- An event that names an order names it when a payment has been anchored. -/
theorem Db.Names.anchor (h : db.Names e o) :
    ∃ o', (db.anchor o.id ref).Names e o' ∧ (o' = o ∨ o' = o.setPaymentIntent ref) := by
  rcases h with ⟨hid, ho⟩ | ⟨hid, href, ho⟩
  · rcases @Db.order_anchor_cases db o.id ref e.orderID with h | ⟨o₁, ho₁, h⟩
    · exact ⟨o, .inl ⟨hid, h.trans ho⟩, .inl rfl⟩
    · cases ho.symm.trans ho₁
      exact ⟨_, .inl ⟨hid, h⟩, .inr rfl⟩
  · unfold Db.anchor
    split
    · refine ⟨o.setPaymentIntent ref, .inr ⟨hid, href, ?_⟩, .inr rfl⟩
      have hfind := @Keyed.find_update _ _ _ _ db.orders [o.id] (.setPaymentIntent ref)
        (fun _ => OrderRow.setPaymentIntent_id)
        (fun o => o.channel = e.channel ∧ o.channelRef = e.channelRef) fun _ _ _ => rfl
      refine hfind.trans ?_
      rw [show db.orders.find _ = some o from ho]
      simp
    · exact ⟨o, .inr ⟨hid, href, ho⟩, .inl rfl⟩

theorem OrderRow.settle_setPaymentIntent :
    (o.setPaymentIntent ref).settle now = (o.settle now).setPaymentIntent ref := by
  cases h : o.status <;> simp [settle, setPaymentIntent, setStatus, revive, h]

/-- An order can be paid before its payment is anchored, or after. -/
theorem Db.updateOrder_settle_anchor {id : String} :
    (db.anchor id ref).updateOrder id (.settle now) (fun _ => OrderRow.settle_id)
      = (db.updateOrder id (.settle now) fun _ => OrderRow.settle_id).anchor id ref := by
  unfold Db.anchor
  split
  · unfold setPaymentIntent updateOrder
    simp only [Keyed.update_update]
    congr 1
    exact Keyed.update_congr fun _ _ _ => OrderRow.settle_setPaymentIntent
  · rfl

theorem Db.findWorkspaceBySubscription_eq {ws : String} {row : Workspace}
    (hrow : db.workspace ws = some row) (hsub : row.subscriptionRef.map Subtype.val = some ref)
    (hother : ∀ id row', db.workspace id = some row' →
      row'.subscriptionRef.map Subtype.val = some ref → id = ws) :
    db.findWorkspaceBySubscription ref = some row := by
  cases hfound : db.findWorkspaceBySubscription ref with
  | none =>
    have hnone := List.find?_eq_none.1 hfound row (Keyed.mem_of_get hrow)
    simp [hsub] at hnone
  | some row' =>
    obtain ⟨hget, hsub'⟩ := workspace_of_subscription hfound
    have hid := hother _ _ hget hsub'
    rw [hid, hrow] at hget
    exact hget.symm

theorem Db.not_subscribed {id : String} {row : Workspace} (h : db.findWorkspaceBySubscription ref = none)
    (hrow : db.workspace id = some row) : row.subscriptionRef.map Subtype.val ≠ some ref := by
  intro hsub
  have hnone := List.find?_eq_none.1 h row (Keyed.mem_of_get hrow)
  simp [hsub] at hnone

/-! ## The two events of a first payment -/

theorem delivered_paid (hdb : db.Consistent) (htype : e.type = .checkoutCompleted)
    (haccept : db.Accepts e) :
    ∃ events, delivered w e now db = (db.paidBy e now).withEvents events := by
  obtain ⟨events, hdeliv⟩ := @delivered_accepted w e now db hdb haccept
  have hhandled : db.handled e now = db.paidBy e now := by simp [Db.handled, htype]
  exact ⟨events, by rw [hdeliv, hhandled]⟩

/-- A renewal that finds no workspace leaves an anchor at most. -/
theorem delivered_renewal_unknown (hdb : db.Consistent) (htype : e.type = .subscriptionRenewed)
    (haccept : db.Accepts e) (hid : e.orderID = "" ∨ e.orderID = o.id)
    (hfresh : db.findWorkspaceBySubscription e.subscriptionRef = none) :
    ∃ ref events, delivered w e now db = (db.anchor o.id ref).withEvents events := by
  obtain ⟨events, hdeliv⟩ := @delivered_accepted w e now db hdb haccept
  have hhandled : db.handled e now = db.renewedBy e now := by simp [Db.handled, htype]
  rw [hdeliv, hhandled]
  unfold Db.renewedBy
  by_cases hempty : e.orderID ≠ ""
  · have horder : e.orderID = o.id := hid.resolve_left hempty
    refine ⟨e.paymentIntentRef, events, ?_⟩
    rw [if_pos hempty, Db.extendedBy_none (Db.findWorkspaceBySubscription_anchor.trans hfresh), ite_self,
      horder]
  · refine ⟨"", events, ?_⟩
    rw [if_neg hempty, Db.extendedBy_none hfresh]
    rfl

theorem Db.Grows.refusesRenewal {db' : Db} (h : db.Grows db')
    (hid : e.orderID = "" ∨ (db.order e.orderID).isSome) :
    db'.RefusesRenewal e ↔ db.RefusesRenewal e := by
  rcases hid with hid | hsome
  · simp [Db.RefusesRenewal, hid]
  · obtain ⟨o, ho⟩ := Option.isSome_iff_exists.1 hsome
    obtain ⟨o', ho', hsale⟩ := h.orders _ o ho
    unfold Db.RefusesRenewal Db.renewalAmountMismatch
    rw [ho, ho']
    simp only [hsale.planCode, hsale.interval, hsale.currency, h.plan_eq]

end

/-- The checkout of an order completes and the first invoice is reported as a
renewal, at the same time. The order of the two events does not matter exactly if
the renewal is refused, or if the period counted from the latest paid order ends
when the first period of the order does. -/
theorem first_period_iff {db : Db} (hdb : Reachable db) {o : OrderRow} (hpay : o.Payable)
    {paid renewed : PaymentEvent} (hpaid : paid.type = .checkoutCompleted)
    (hrenewed : renewed.type = .subscriptionRenewed) (hnames : db.Names paid o)
    (hamount : amountMismatch (scanOrder o) paid = false) (hsub : paid.subscriptionRef ≠ "")
    (hsame : renewed.subscriptionRef = paid.subscriptionRef)
    (hfresh : db.findWorkspaceBySubscription paid.subscriptionRef = none)
    (hid : renewed.orderID = "" ∨ renewed.orderID = o.id) (hkeys : renewed.key ≠ paid.key)
    (haccept : db.Accepts paid) (haccept' : db.Accepts renewed) (w : World) (now : Time) :
    ((delivered w renewed now (delivered w paid now db)).workspace o.workspaceID).map
        Workspace.entitlement
      = ((delivered w paid now (delivered w renewed now db)).workspace o.workspaceID).map
        Workspace.entitlement ↔
    db.RefusesRenewal renewed ∨
      addInterval now ((db.updateOrder o.id (.settle now) fun _ =>
          OrderRow.settle_id).renewalInterval o.workspaceID) 0
        = addInterval now o.interval (db.trialDays o.planCode) := by
  have hcons := hdb.consistent
  have ho := hnames.order
  obtain ⟨row, hrow⟩ := Option.isSome_iff_exists.1 (hcons.orderWorkspace _ _ ho)
  have hgrants : db.Grants paid o := ⟨hnames.resolve, hamount, hpay⟩
  -- The renewal comes second: it finds the workspace that the payment has subscribed.
  have hfirst : (delivered w renewed now (delivered w paid now db)).workspace o.workspaceID
      = some (if db.RefusesRenewal renewed then
          row.grant o.planCode paid.subscriptionRef (db.subscriptionExpiry o now)
        else (((row.grant o.planCode paid.subscriptionRef (db.subscriptionExpiry o now)).setSubscription
          paid.subscriptionRef (addInterval now ((db.updateOrder o.id (.settle now) fun _ =>
            OrderRow.settle_id).renewalInterval o.workspaceID) 0)).setPlan o.planCode)) := by
    obtain ⟨events, hdeliv⟩ := @delivered_paid db paid w now hcons hpaid haccept
    have hgrows := @delivered_grows w paid now db
    have haccept₁ := @Db.Accepts.delivered w paid now _ renewed hcons haccept' hkeys
    have hrow₁ : (delivered w paid now db).workspace o.workspaceID
        = some (row.grant o.planCode paid.subscriptionRef (db.subscriptionExpiry o now)) := by
      rw [hdeliv]
      exact (Db.Grants.workspace_paidBy hgrants).trans (by rw [hrow]; rfl)
    have hfound : (delivered w paid now db).findWorkspaceBySubscription renewed.subscriptionRef
        = some (row.grant o.planCode paid.subscriptionRef (db.subscriptionExpiry o now)) := by
      rw [hsame]
      refine Db.findWorkspaceBySubscription_eq hrow₁ ?_ fun id row' hrow' hsub' => ?_
      · simp [Workspace.grant_ref hsub, Workspace.setSubscription, Workspace.clearCancel, nullif, hsub]
      · by_contra hne
        rw [hdeliv] at hrow'
        have hkept := (@Db.Grants.workspace_paidBy_ne db paid now id o hgrants hne).symm.trans hrow'
        exact Db.not_subscribed hfresh hkept hsub'
    have hinterval : (delivered w paid now db).renewalInterval o.workspaceID
        = (db.updateOrder o.id (.settle now) fun _ => OrderRow.settle_id).renewalInterval
            o.workspaceID := by
      have hanchor : ((db.anchor o.id paid.paymentIntentRef).updateOrder o.id (.settle now) fun _ =>
            OrderRow.settle_id).renewalInterval o.workspaceID
          = (db.updateOrder o.id (.settle now) fun _ => OrderRow.settle_id).renewalInterval
            o.workspaceID := by
        rw [Db.updateOrder_settle_anchor, Db.renewalInterval_anchor]
      rw [hdeliv, hgrants.paidBy]
      exact hanchor
    have hplan : (delivered w paid now db).restoredPlan renewed o.planCode = o.planCode := by
      by_cases hempty : renewed.orderID = ""
      · simp [Db.restoredPlan, hempty]
      · refine Db.restoredPlan_self fun o₁ ho₁ => ?_
        obtain ⟨o₂, ho₂, hsale⟩ := hgrows.orders _ o ho
        rw [hid.resolve_left hempty, ho₂] at ho₁
        cases ho₁
        exact hsale.planCode
    have hidrow : row.id = o.workspaceID := Keyed.key_of_get hrow
    have hrefuse : (delivered w paid now db).RefusesRenewal renewed ↔ db.RefusesRenewal renewed := by
      refine hgrows.refusesRenewal (hid.imp_right fun h => ?_)
      rw [h, ho]
      rfl
    have hextended := @Db.workspace_extendedBy _ renewed now _ hfound
    have hcode : (row.grant o.planCode paid.subscriptionRef (db.subscriptionExpiry o now)).planCode
        = o.planCode := by
      rw [Workspace.grant_ref hsub]
      rfl
    rw [Workspace.grant_id, hidrow, Db.renewalExpiry, hinterval, hcode, hplan, hsame] at hextended
    rw [workspace_renewal (hgrows.consistent hcons) hrenewed haccept₁, hrow₁, hextended]
    by_cases hr : db.RefusesRenewal renewed
    · rw [if_pos hr, if_pos (hrefuse.2 hr)]
    · rw [if_neg hr, if_neg fun h => hr (hrefuse.1 h)]
  -- The renewal comes first: it finds no workspace, and the payment is as without it.
  have hsecond : (delivered w paid now (delivered w renewed now db)).workspace o.workspaceID
      = some (row.grant o.planCode paid.subscriptionRef (db.subscriptionExpiry o now)) := by
    obtain ⟨ref, events, hdeliv⟩ := @delivered_renewal_unknown db renewed o w now hcons hrenewed
      haccept' hid (by rw [hsame]; exact hfresh)
    have haccept₁ := @Db.Accepts.delivered w renewed now _ paid hcons haccept hkeys.symm
    have hcons₁ := (@delivered_grows w renewed now db).consistent hcons
    obtain ⟨events', hdeliv'⟩ := @delivered_paid _ paid w now hcons₁ hpaid haccept₁
    obtain ⟨o₁, hnames₁, ho₁⟩ := @Db.Names.anchor db paid o ref hnames
    have hgrants₁ : (delivered w renewed now db).Grants paid o₁ := by
      rw [hdeliv]
      rcases ho₁ with rfl | rfl
      · exact ⟨hnames₁.resolve, hamount, hpay⟩
      · exact ⟨hnames₁.resolve, hamount, hpay⟩
    have hws := @Db.Grants.workspace_paidBy _ paid now o₁ hgrants₁
    have hexpiry : (delivered w renewed now db).subscriptionExpiry o₁ now
        = db.subscriptionExpiry o now := by
      have hplans := (@delivered_grows w renewed now db).plan_eq
      rcases ho₁ with rfl | rfl
      · simp only [Db.subscriptionExpiry, Db.trialDays, hplans]
      · simp only [Db.subscriptionExpiry, Db.trialDays, hplans]
        rfl
    have hrow₁ : (delivered w renewed now db).workspace o.workspaceID = some row := by
      rw [hdeliv]
      exact Db.workspace_anchor.trans hrow
    have hsale : o₁.workspaceID = o.workspaceID ∧ o₁.planCode = o.planCode := by
      rcases ho₁ with rfl | rfl <;> exact ⟨rfl, rfl⟩
    rw [hexpiry, hsale.1, hsale.2, hrow₁] at hws
    rw [hdeliv']
    exact hws
  rw [hfirst, hsecond]
  by_cases hrefuse : db.RefusesRenewal renewed
  · simp [hrefuse]
  · simp [hrefuse, Workspace.entitlement, Workspace.grant_ref hsub, Workspace.setPlan,
      Workspace.setSubscription, Workspace.clearCancel, hsub, Db.subscriptionExpiry]

/-- A monthly order of the pro plan. -/
def ordered (trialDays : Int) : Db :=
  serveAll (smallWorld 5) [.buy "w1" .monthly "paypal" 10] (smallDb trialDays)

theorem ordered_reachable (trialDays : Int) : Reachable (ordered trialDays) :=
  (smallDb_installed trialDays).reachable.serveAll

def firstOrder : OrderRow where
  id := "o1"
  workspaceID := "w1"
  userID := "u1"
  planCode := "pro"
  interval := .monthly
  amountCents := 900
  currency := "usd"
  channel := "paypal"
  status := .pending
  channelRef := "session-o1"
  paidAt := none
  canceledAt := none
  refundedAt := none
  createdAt := 5
  metadata := {}
  expiresAt := none
  canceledBy := none

/-- Its checkout has been completed. -/
def checkoutCompleted : PaymentEvent where
  channel := "paypal"
  channelEventID := "e1"
  type := .checkoutCompleted
  orderID := "o1"
  subscriptionRef := "s1"
  amountCents := 900
  currency := "USD"

/-- Its first invoice has been paid. -/
def firstInvoice : PaymentEvent :=
  { checkoutCompleted with channelEventID := "e2", type := .subscriptionRenewed }

theorem first_period_iff_noTrial :
    ((delivered (smallWorld 5) firstInvoice 20 (delivered (smallWorld 5) checkoutCompleted 20
        (ordered 0))).workspace firstOrder.workspaceID).map Workspace.entitlement
      = ((delivered (smallWorld 5) checkoutCompleted 20 (delivered (smallWorld 5) firstInvoice 20
        (ordered 0))).workspace firstOrder.workspaceID).map Workspace.entitlement := by
  have hnames : (ordered 0).Names checkoutCompleted firstOrder := by decide
  have hfresh : (ordered 0).findWorkspaceBySubscription checkoutCompleted.subscriptionRef = none := by
    decide
  have hrenewed : firstInvoice.type = .subscriptionRenewed := rfl
  have hsame : firstInvoice.subscriptionRef = checkoutCompleted.subscriptionRef := rfl
  have haccept : (ordered 0).Accepts checkoutCompleted := by decide
  have haccept' : (ordered 0).Accepts firstInvoice := by decide
  refine (first_period_iff (ordered_reachable 0) (.inl rfl) rfl hrenewed hnames (by decide) (by decide)
    hsame hfresh (.inr rfl) (by decide) haccept haccept' (smallWorld 5) 20).2 (.inr ?_)
  decide

/-- A trial of two weeks is lost when the renewal comes second. -/
theorem first_period_differs : ∃ db o paid renewed w now, Reachable db ∧ o.Payable ∧
    paid.type = .checkoutCompleted ∧ renewed.type = .subscriptionRenewed ∧ db.Names paid o ∧
    amountMismatch (scanOrder o) paid = false ∧ ¬ db.RefusesRenewal renewed ∧
    renewed.subscriptionRef = paid.subscriptionRef ∧ renewed.orderID = o.id ∧ db.Accepts paid ∧
    db.Accepts renewed ∧ renewed.key ≠ paid.key ∧
    ((delivered w renewed now (delivered w paid now db)).workspace o.workspaceID).map
        Workspace.entitlement
      ≠ ((delivered w paid now (delivered w renewed now db)).workspace o.workspaceID).map
        Workspace.entitlement :=
  ⟨ordered 14, firstOrder, checkoutCompleted, firstInvoice, smallWorld 5, 20, ordered_reachable 14,
    by decide⟩

/-! ## What is sold and what is granted -/

/-- The channel is asked for the checkout. -/
def Op.Asks (channel : String) (req : CheckoutRequest) : {β : Type} → Op β → Prop
  | _, .createCheckout channel' req' => channel' = channel ∧ req' = req
  | _, _ => False

theorem Db.insertOrder_ok {db db' : Db} {row : OrderRow} {order : Order}
    (h : db.insertOrder row = (.ok order, db')) :
    order = scanOrder row ∧ db'.order row.id = some row := by
  unfold insertOrder at h
  split at h
  · cases h
  · split at h
    · cases h
      refine ⟨rfl, ?_⟩
      rw [order, Keyed.get_insert, if_pos rfl]
    · cases h

section

variable {cfg : Config} {channels : ChannelSet} {p : Principal} {ws planCode channelName channel : String}
  {interval : BillingInterval} {now : Time} {w : World} {req : CheckoutRequest}

theorem calls_resolveChannelProduct_asks {ch : Channel} {plan : Plan} {amount : Int} :
    (resolveChannelProduct cfg ch channelName plan interval amount now).Calls
      fun o => ¬ o.Asks channel req := by
  refine .ite (fun _ => trivial) fun _ => .ite (fun _ => trivial) fun _ => ?_
  refine .seq (fun h => h) fun r => ?_
  rcases r with err | _ | product
  · trivial
  · refine .ite (fun _ => trivial) fun _ => .ite (fun _ => ?_) fun _ => trivial
    exact .seq (fun h => h) fun r => by cases r <;> trivial
  · trivial

/-- The order that the channel is asked for is the one that has been stored. -/
theorem createCheckout_asks {db db₁ : Db} {m : Svc (Except Err CheckoutSession)}
    (h : Path (Sound (Op.exec w)) (createCheckout cfg channels p ws planCode interval channelName now)
      db m db₁) (hm : m.Next (Op.Asks channel req)) :
    ∃ row, req.order = scanOrder row ∧ db₁.order row.id = some row ∧ row.planCode = planCode ∧
      row.interval = interval := by
  obtain ⟨r, s₁, -, h⟩ := h.call_next hm fun h => h
  rcases r with err | _ | plan
  · exact absurd hm (h.not_next trivial)
  · exact absurd hm (h.not_next trivial)
  simp only [ret_bind, orReturn] at h
  cases hch : channels channelName with
  | none =>
    rw [hch] at h
    exact absurd hm (h.not_next trivial)
  | some ch =>
  rw [hch] at h
  simp only [] at h
  split at h
  · exact absurd hm (h.not_next trivial)
  obtain ⟨r, s₂, -, h⟩ := h.bind_next hm calls_resolveChannelProduct_asks
  rcases r with err | product
  · exact absurd hm (h.not_next trivial)
  obtain ⟨r, s₃, hcreate, h⟩ := h.call_next hm fun h => h
  rcases r with err | order
  · exact absurd hm (h.not_next trivial)
  obtain ⟨row, rfl, hstored, hplan, hinterval⟩ : ∃ row, order = scanOrder row ∧
      s₃.order row.id = some row ∧ row.planCode = planCode ∧ row.interval = interval := by
    obtain ⟨horder, hstored⟩ := Db.insertOrder_ok hcreate
    exact ⟨_, horder, hstored, rfl, rfl⟩
  have hasked : ∀ email k, Path (Sound (Op.exec w)) (.call (.createCheckout channelName
      ⟨scanOrder row, cfg.successURL, cfg.cancelURL, email, cfg.locale, product⟩) k) s₃ m db₁ →
      (∀ r, (k r).Calls fun o => ¬ o.Asks channel req) →
      ∃ row, req.order = scanOrder row ∧ db₁.order row.id = some row ∧ row.planCode = planCode ∧
        row.interval = interval := by
    intro email k h hk
    rcases h.call_cases with ⟨rfl, rfl⟩ | ⟨r, s₅, -, h⟩
    · obtain ⟨-, rfl⟩ := hm
      exact ⟨row, rfl, hstored, hplan, hinterval⟩
    · exact absurd hm (h.not_next (hk r))
  -- The buyer's address is read, and then the channel is asked.
  obtain ⟨r, s₄, hemail, h⟩ := h.call_next hm fun h => h
  have hs₄ : s₄ = s₃ := (Prod.ext_iff.1 hemail).2.symm
  subst hs₄
  rcases r with err | email
  all_goals
    refine hasked _ _ h fun r => ?_
    cases r with
    | error err => exact .seq (fun h => h) fun _ => trivial
    | ok session => exact .seq (fun h => h) fun _ => trivial

end

/-- A checkout asks its channel for the order it has stored, and later a completed
checkout pays for that order. The trial that the channel is asked for, the one that
exempts the order's amount and the one that is granted are the same, and the period
granted is not shorter than the interval, exactly if the plan has no trial days. -/
theorem trial_sold_iff {db : Db} {cfg : Config} {channels : ChannelSet} {p : Principal}
    {ws planCode channelName : String} {interval : BillingInterval} {now : Time} {w : World}
    {plan : Plan} (hplan : db.plan planCode = some plan) {m : Svc (Except Err CheckoutSession)}
    {db₁ db₂ db₃ : Db} {req : CheckoutRequest} {r : Except Err CheckoutSession} {past : List Db}
    (hdb : Reachable db)
    (hpath : Path (Sound (Op.exec w)) (createCheckout cfg channels p ws planCode interval channelName now)
      db m db₁) (hasks : m.Next (Op.Asks channelName req))
    (hend : Path (Sound (Op.exec w)) m db₁ (.ret r) db₂)
    (hlater : Run (fun db db' => ∃ rq, Serves rq db db') db₂ past db₃) {row : OrderRow}
    (hrow : db₃.order req.order.id = some row) {e : PaymentEvent} (htype : e.type = .checkoutCompleted)
    (haccept : db₃.Accepts e) (hgrants : db₃.Grants e row) (hsub : e.subscriptionRef ≠ "")
    (w' : World) (t : Time) :
    (req.order.trialDays = (scanOrder row).trialDays ∧
      (scanOrder row).trialDays = max 0 (db₃.trialDays row.planCode) ∧
      ∀ ws', (delivered w' e t db₃).workspace row.workspaceID = some ws' →
        ∃ x ∈ ws'.planExpiresAt, addInterval t interval 0 ≤ x) ↔ plan.trialDays ≤ 0 := by
  obtain ⟨row₀, hreq, hrow₀, hcode, hinterval⟩ := createCheckout_asks hpath hasks
  have hgrows₁ : db.Grows db₁ := .of_sound hpath
  have hgrows₂ : db₂.Grows db₃ := hlater.invariant (.refl rfl rfl rfl) fun _ _ h ⟨_, hserves⟩ =>
    h.trans hserves.grows
  have hgrows : db₁.Grows db₃ := (Db.Grows.of_sound hend).trans hgrows₂
  have hcons : db₃.Consistent := (hgrows₁.trans hgrows).consistent hdb.consistent
  -- What has been sold is still in the row of the order.
  obtain ⟨row', hrow', hsale⟩ := hgrows.orders _ row₀ hrow₀
  rw [hreq, scanOrder_id, hrow', Option.some.injEq] at hrow
  subst hrow
  have htrial : db₃.trialDays row'.planCode = plan.trialDays := by
    rw [Db.trialDays, hsale.planCode, hcode, (hgrows₁.trans hgrows).plan_eq, hplan]
    rfl
  rw [hreq, htrial]
  constructor
  · rintro ⟨-, hsame, -⟩
    simp only [scanOrder_trialDays] at hsame
    omega
  · intro htrial₀
    refine ⟨rfl, by simp only [scanOrder_trialDays]; omega, fun ws' hws' => ?_⟩
    obtain ⟨events, hdeliv⟩ := @delivered_paid db₃ e w' t hcons htype haccept
    obtain ⟨old, hold⟩ := Option.isSome_iff_exists.1 (hcons.orderWorkspace _ _ hrow')
    have hgranted := @Db.Grants.workspace_paidBy db₃ e t row' hgrants
    rw [hdeliv] at hws'
    rw [hold] at hgranted
    cases hgranted.symm.trans hws'
    refine ⟨db₃.subscriptionExpiry row' t, ?_, ?_⟩
    · simp [Workspace.grant_ref hsub, Workspace.setSubscription, Workspace.clearCancel, hsub]
    · rw [Db.subscriptionExpiry, htrial, addInterval_noTrial htrial₀, hsale.interval, hinterval]

/-- The checkout of `ordered`, and how far it is when the channel is asked. -/
def smallCheckout : Svc (Except Err CheckoutSession) :=
  createCheckout smallConfig (fun name => some (smallChannel name ⟨name, "", .other "", "", "", "", "", 0, ""⟩))
    ⟨"u1", "w1", "mail"⟩ "w1" "pro" .monthly "paypal" 10

def askedAt (trialDays : Int) : Svc (Except Err CheckoutSession) × Db :=
  smallCheckout.advance (Op.exec (smallWorld 5)) 3 (smallDb trialDays)

def firstRequest : CheckoutRequest :=
  ⟨{ scanOrder firstOrder with channelRef := "" }, "success", "cancel", "mail", "en", ""⟩

theorem askedAt_path (trialDays : Int) : Path (Sound (Op.exec (smallWorld 5))) smallCheckout
    (smallDb trialDays) (askedAt trialDays).1 (askedAt trialDays).2 := path_advance 3 _ _

/-- The state in which that checkout ends. -/
def checkedOut (trialDays : Int) : Db :=
  ((askedAt trialDays).1.run (Op.exec (smallWorld 5)) (askedAt trialDays).2).2

theorem askedAt_run (trialDays : Int) : ∃ r, Path (Sound (Op.exec (smallWorld 5)))
    (askedAt trialDays).1 (askedAt trialDays).2 (.ret r) (checkedOut trialDays) :=
  ⟨_, run_path (fun _ _ => rfl) _ _⟩

theorem trial_sold_iff_noTrial :
    firstRequest.order.trialDays = (scanOrder firstOrder).trialDays ∧
      (scanOrder firstOrder).trialDays = max 0 ((checkedOut 0).trialDays firstOrder.planCode) ∧
      ∀ ws', (delivered (smallWorld 5) checkoutCompleted 20 (checkedOut 0)).workspace
          firstOrder.workspaceID = some ws' → ∃ x ∈ ws'.planExpiresAt, addInterval 20 .monthly 0 ≤ x := by
  obtain ⟨r, hend⟩ := askedAt_run 0
  have hasks : (askedAt 0).1.Next (Op.Asks "paypal" firstRequest) := ⟨rfl, by decide⟩
  have hplan : (smallDb 0).plan "pro" = some (proPlan 0) := rfl
  have hrow : (checkedOut 0).order firstRequest.order.id = some firstOrder := by decide
  have hpaid : checkoutCompleted.type = .checkoutCompleted := rfl
  exact (trial_sold_iff hplan (smallDb_installed 0).reachable (askedAt_path 0) hasks hend .start hrow
    hpaid (by decide) (by decide) (by decide) (smallWorld 5) 20).2 (by decide)

/-- A plan with a trial of two weeks: the channel is asked for no trial, the order is
charged in full, and the period that is granted ends before the month does. -/
theorem trial_not_sold : ∃ m db₁ db₂ req r row w e t, Reachable (smallDb 14) ∧
    Path (Sound (Op.exec w)) smallCheckout (smallDb 14) m db₁ ∧ m.Next (Op.Asks "paypal" req) ∧
    Path (Sound (Op.exec w)) m db₁ (.ret r) db₂ ∧ db₂.order req.order.id = some row ∧
    e.type = .checkoutCompleted ∧ db₂.Accepts e ∧ db₂.Grants e row ∧ e.subscriptionRef ≠ "" ∧
    e.amountCents = row.amountCents ∧ req.order.trialDays ≠ db₂.trialDays row.planCode ∧
    ((delivered w e t db₂).workspace row.workspaceID).any fun ws' =>
      ws'.planExpiresAt.any fun x => x < addInterval t row.interval 0 := by
  obtain ⟨r, hend⟩ := askedAt_run 14
  exact ⟨_, _, _, firstRequest, r, firstOrder, smallWorld 5, checkoutCompleted, 20,
    (smallDb_installed 14).reachable, askedAt_path 14, ⟨rfl, by decide⟩, hend, by decide⟩

end Ploykit.Billing

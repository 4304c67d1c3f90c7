import Ploykit.Billing.FirstPeriod
import Ploykit.Billing.Rows

/-!
# Channels

An event finds its order by the order's id, by the reference of the checkout
session, or by the reference of a payment, and its workspace by the reference of
the subscription. Only the session is looked up for the event's own channel.
-/

namespace Ploykit.Billing

open Lib Script

/-! ## What an event leaves alone -/

/-- What the workspace has now was bought through another channel. -/
def Db.BoughtElsewhere (db : Db) (channel ws : String) : Prop :=
  ∃ o, db.entitledBy ws = some o ∧ o.channel ≠ channel

/-- The orders of other channels stay, and so does what a workspace has bought through one. -/
structure Db.Isolated (db db' : Db) (channel : String) : Prop where
  orders : ∀ id o, db.order id = some o → o.channel ≠ channel → db'.order id = some o
  workspaces : ∀ ws row, db.workspace ws = some row → db.BoughtElsewhere channel ws →
    (db'.workspace ws).map Workspace.entitlement = some row.entitlement

namespace Db

variable {db db' : Db} {channel id ws : String} {f : OrderRow → OrderRow} {g : Workspace → Workspace}

theorem Isolated.refl : db.Isolated db channel where
  orders _ _ ho _ := ho
  workspaces ws row hrow _ := by rw [hrow]; rfl

/-- It takes a look at the rows that are changed. -/
theorem Touches.isolated (h : db.Touches db' id f ws g) : db.Isolated db' channel ↔
    (∀ o, db.order id = some o → o.channel ≠ channel → f o = o) ∧
      (db.BoughtElsewhere channel ws → ∀ row, db.workspace ws = some row →
        (g row).entitlement = row.entitlement) := by
  constructor
  · intro hiso
    refine ⟨fun o ho hchannel => ?_, fun hbought row hrow => ?_⟩
    · have ho' := hiso.orders id o ho hchannel
      rw [h.order, ho] at ho'
      exact Option.some.inj ho'
    · have hrow' := hiso.workspaces ws row hrow hbought
      rw [h.workspace, hrow] at hrow'
      exact Option.some.inj hrow'
  · rintro ⟨horder, hws⟩
    refine ⟨fun id' o ho hchannel => ?_, fun ws' row hrow hbought => ?_⟩
    · by_cases hid : id' = id
      · subst hid
        rw [h.order, ho, Option.map_some, horder o ho hchannel]
      · rw [h.orders id' hid, ho]
    · by_cases hid : ws' = ws
      · subst hid
        rw [h.workspace, hrow, Option.map_some, Option.map_some, hws hbought row hrow]
      · rw [h.workspaces ws' hid, hrow]
        rfl

end Db

/-! ### Rows that a change leaves -/

section

variable {o : OrderRow} {row : Workspace} {ref sub plan : String} {now t : Time}

/-- The payment is anchored to the order already. -/
def OrderRow.Anchored (ref : String) (o : OrderRow) : Prop :=
  ref = "" ∨ o.metadata.paymentIntent = some ref

theorem OrderRow.anchor_eq_self : o.anchor ref = o ↔ o.Anchored ref := by
  unfold anchor Anchored
  split
  · rename_i href
    constructor
    · intro h
      rw [← h]
      exact .inr rfl
    · rintro (h | h)
      · exact absurd h href
      · cases o
        simp only [setPaymentIntent, OrderRow.mk.injEq, true_and, and_true]
        simp only at h
        rw [← h]
  · rename_i href
    simp [not_not.1 href]

theorem OrderRow.settle_anchor_eq_self (h : o.Payable) :
    (o.anchor ref).settle now = o ↔ o.status = .paid ∧ o.Anchored ref := by
  constructor
  · intro hself
    have hpaid : o.status = .paid := by
      have hpayable : (o.anchor ref).Payable := by
        unfold anchor
        split <;> exact h
      rw [← hself]
      exact settle_status hpayable
    rw [settle_paid (anchor_status.trans hpaid)] at hself
    exact ⟨hpaid, anchor_eq_self.1 hself⟩
  · rintro ⟨hpaid, hanchored⟩
    rw [settle_paid (anchor_status.trans hpaid), anchor_eq_self.2 hanchored]

/-- A subscription reference as it is stored. -/
theorem nullif_eq {stored : Option SubscriptionRef} (h : sub ≠ "") :
    nullif sub = stored ↔ stored.map Subtype.val = some sub := by
  rw [nullif, dif_neg h]
  cases stored with
  | none => simp
  | some ref =>
    simp only [Option.some.injEq, Option.map_some]
    constructor
    · rintro rfl
      rfl
    · rintro rfl
      rfl

theorem Workspace.entitlement_grant : (row.grant plan sub t).entitlement = row.entitlement ↔
    row.planCode = plan ∧ (sub ≠ "" → row.subscriptionRef.map Subtype.val = some sub ∧
      row.planExpiresAt = some t) := by
  unfold grant entitlement
  split
  · rename_i hsub
    simp only [setPlan, setSubscription, clearCancel, Prod.mk.injEq, nullif_eq hsub, if_pos hsub]
    constructor
    · rintro ⟨hplan, href, ht⟩
      exact ⟨hplan.symm, fun _ => ⟨href, ht.symm⟩⟩
    · rintro ⟨hplan, h⟩
      exact ⟨hplan.symm, (h hsub).1, (h hsub).2.symm⟩
  · rename_i hsub
    simp only [setPlan, clearCancel, Prod.mk.injEq, and_true]
    exact ⟨fun hplan => ⟨hplan.symm, fun h => absurd h hsub⟩, fun h => h.1.symm⟩

theorem Workspace.entitlement_revoke : (row.revoke sub).entitlement = row.entitlement ↔
    row.planCode = "free" ∧ (sub ≠ "" → row.subscriptionRef = none ∧ row.planExpiresAt = none) := by
  unfold revoke entitlement
  split
  · rename_i hsub
    simp only [unsubscribe, setPlan, setSubscription, clearCancel, nullif, Prod.mk.injEq, ne_eq,
      not_true_eq_false, if_false, dite_true]
    constructor
    · rintro ⟨hplan, href, ht⟩
      exact ⟨hplan.symm, fun _ => ⟨href.symm, ht.symm⟩⟩
    · rintro ⟨hplan, h⟩
      exact ⟨hplan.symm, (h hsub).1.symm, (h hsub).2.symm⟩
  · rename_i hsub
    simp only [setPlan, Prod.mk.injEq, and_true]
    exact ⟨fun hplan => ⟨hplan.symm, fun h => absurd h hsub⟩, fun h => h.1.symm⟩

end

/-! ### The events that keep to their channel -/

namespace Db

variable (db : Db) (e : PaymentEvent) (now : Time)

/-- A payment that the amount is right for. -/
def KeepsPayment : Prop :=
  ∀ o, db.resolve e = some o → amountMismatch (scanOrder o) e = false →
    (o.channel ≠ e.channel → (o.Payable → o.status = .paid) ∧ o.Anchored e.paymentIntentRef) ∧
    (o.Payable → db.BoughtElsewhere e.channel o.workspaceID →
      ∀ row, db.workspace o.workspaceID = some row → row.planCode = o.planCode ∧
        (e.subscriptionRef ≠ "" → row.subscriptionRef.map Subtype.val = some e.subscriptionRef ∧
          row.planExpiresAt = some (db.subscriptionExpiry o now)))

def KeepsFailure : Prop :=
  ∀ o, db.resolve e = some o → o.status = .pending → o.channel = e.channel

def KeepsRefund : Prop :=
  ∀ o, db.resolve e = some o → o.status = .paid → o.channel = e.channel ∧
    (db.BoughtElsewhere e.channel o.workspaceID →
      ∀ row, db.workspace o.workspaceID = some row → row.planCode = "free" ∧
        (e.subscriptionRef ≠ "" → row.subscriptionRef = none ∧ row.planExpiresAt = none))

/-- A renewal, and the workspace it extends unless it is refused. -/
def KeepsRenewal : Prop :=
  (e.orderID ≠ "" → ∀ o, db.order e.orderID = some o → o.channel ≠ e.channel →
    o.Anchored e.paymentIntentRef) ∧
  (¬ db.RefusesRenewal e → ∀ row, db.findWorkspaceBySubscription e.subscriptionRef = some row →
    db.BoughtElsewhere e.channel row.id → db.restoredPlan e row.planCode = row.planCode ∧
      row.planExpiresAt = some (db.renewalExpiry row.id now))

def KeepsCancellation : Prop :=
  ∀ row, db.findWorkspaceBySubscription e.subscriptionRef = some row →
    ¬ db.BoughtElsewhere e.channel row.id

/-- The rows that the event finds are of its channel, or are already as it leaves them. -/
def KeepsTo : Prop :=
  match e.type with
  | .checkoutCompleted => db.KeepsPayment e now
  | .paymentFailed => db.KeepsFailure e
  | .refundCreated => db.KeepsRefund e
  | .subscriptionRenewed => db.KeepsRenewal e now
  | .subscriptionCanceled => db.KeepsCancellation e
  | .other _ => True

variable {db e now}

theorem isolated_paidBy : db.Isolated (db.paidBy e now) e.channel ↔ db.KeepsPayment e now := by
  unfold KeepsPayment
  cases hres : db.resolve e with
  | none =>
    have hpaid : db.paidBy e now = db := by simp only [paidBy, hres]
    rw [hpaid]
    exact ⟨fun _ o ho => (by cases ho), fun _ => .refl⟩
  | some o =>
    have ho := resolve_order hres
    simp only [Option.some.injEq, forall_eq']
    by_cases hamount : amountMismatch (scanOrder o) e = false
    · by_cases hpay : o.Payable
      · have hgrants : db.Grants e o := ⟨hres, hamount, hpay⟩
        rw [hgrants.touches.isolated, ho]
        simp only [Option.some.injEq, forall_eq', OrderRow.settle_anchor_eq_self hpay,
          Workspace.entitlement_grant, hamount, hpay, true_implies]
      · rw [(@touches_paidBy _ _ _ o.workspaceID _ hres hamount hpay).isolated, ho]
        simp only [Option.some.injEq, forall_eq', OrderRow.anchor_eq_self, implies_true, and_true,
          hamount, hpay, true_implies, false_implies, true_and]
    · have hmis : amountMismatch (scanOrder o) e = true := by simpa using hamount
      have hpaid : db.paidBy e now = db := by simp only [paidBy, hres, hmis, if_true]
      rw [hpaid]
      exact ⟨fun _ h => absurd h hamount, fun _ => .refl⟩

theorem isolated_failedBy : db.Isolated (db.failedBy e) e.channel ↔ db.KeepsFailure e := by
  unfold KeepsFailure
  cases hres : db.resolve e with
  | none =>
    have hfailed : db.failedBy e = db := by simp only [failedBy, hres]
    rw [hfailed]
    exact ⟨fun _ o ho => (by cases ho), fun _ => .refl⟩
  | some o =>
    simp only [Option.some.injEq, forall_eq']
    by_cases hpending : o.status = .pending
    · rw [(@touches_failedBy _ _ o.workspaceID _ hres hpending).isolated, resolve_order hres]
      simp only [Option.some.injEq, forall_eq', implies_true, and_true, hpending, true_implies]
      have hne : o.fail ≠ o := by
        intro h
        rw [← h] at hpending
        cases hpending
      exact ⟨fun h => by_contra fun hc => hne (h hc), fun h hc => absurd h hc⟩
    · have hfailed : db.failedBy e = db := by simp only [failedBy, hres, if_neg hpending]
      rw [hfailed]
      exact ⟨fun _ h => absurd h hpending, fun _ => .refl⟩

theorem isolated_refundedBy : db.Isolated (db.refundedBy e now) e.channel ↔ db.KeepsRefund e := by
  unfold KeepsRefund
  cases hres : db.resolve e with
  | none =>
    have hrefunded : db.refundedBy e now = db := by simp only [refundedBy, hres]
    rw [hrefunded]
    exact ⟨fun _ o ho => (by cases ho), fun _ => .refl⟩
  | some o =>
    simp only [Option.some.injEq, forall_eq']
    by_cases hpaid : o.status = .paid
    · rw [(touches_refundedBy hres hpaid).isolated, resolve_order hres]
      simp only [Option.some.injEq, forall_eq', Workspace.entitlement_revoke, hpaid, true_implies]
      have hne : o.setStatus .refunded now ≠ o := by
        intro h
        rw [← h] at hpaid
        cases hpaid
      exact and_congr_left fun _ =>
        ⟨fun h => by_contra fun hc => hne (h hc), fun h hc => absurd h hc⟩
    · have hrefunded : db.refundedBy e now = db := by simp only [refundedBy, hres, if_neg hpaid]
      rw [hrefunded]
      exact ⟨fun _ h => absurd h hpaid, fun _ => .refl⟩

theorem entitlement_extended {row : Workspace} {t : Time}
    (hfound : db.findWorkspaceBySubscription e.subscriptionRef = some row) :
    ((row.setSubscription e.subscriptionRef t).setPlan (db.restoredPlan e row.planCode)).entitlement
        = row.entitlement ↔
      db.restoredPlan e row.planCode = row.planCode ∧ row.planExpiresAt = some t := by
  obtain ⟨-, hsub⟩ := workspace_of_subscription hfound
  have href : e.subscriptionRef ≠ "" := by
    obtain ⟨ref, -, href⟩ := Option.map_eq_some_iff.1 hsub
    exact href ▸ ref.2
  simp only [Workspace.entitlement, Workspace.setPlan, Workspace.setSubscription, Prod.mk.injEq,
    nullif_eq href, hsub, if_pos href, true_and]
  exact and_congr_right fun _ => eq_comm

theorem isolated_renewedBy : db.Isolated (db.renewedBy e now) e.channel ↔ db.KeepsRenewal e now := by
  have horder : (∀ o, db.order e.orderID = some o → o.channel ≠ e.channel →
        o.anchor (if e.orderID ≠ "" then e.paymentIntentRef else "") = o) ↔
      (e.orderID ≠ "" → ∀ o, db.order e.orderID = some o → o.channel ≠ e.channel →
        o.Anchored e.paymentIntentRef) := by
    simp only [OrderRow.anchor_eq_self]
    by_cases hid : e.orderID ≠ ""
    · simp only [hid, if_true, ne_eq, not_false_eq_true, true_implies]
    · simp only [if_neg hid]
      exact ⟨fun _ h => absurd h hid, fun _ _ _ _ => .inl rfl⟩
  unfold KeepsRenewal
  by_cases hrefused : db.RefusesRenewal e
  · rw [(@touches_renewedBy_refused _ _ _ "" (.inl hrefused)).isolated, horder]
    exact and_congr_right fun _ => ⟨fun _ h => absurd hrefused h, fun _ _ _ _ => rfl⟩
  · cases hfound : db.findWorkspaceBySubscription e.subscriptionRef with
    | none =>
      rw [(@touches_renewedBy_refused _ _ _ "" (.inr hfound)).isolated, horder]
      exact and_congr_right fun _ => ⟨fun _ _ _ h => (nomatch h), fun _ _ _ _ => rfl⟩
    | some row =>
      rw [(touches_renewedBy hrefused hfound).isolated, horder, (workspace_of_subscription hfound).1]
      simp only [Option.some.injEq, forall_eq', entitlement_extended hfound, hrefused,
        not_false_eq_true, true_implies]

/-- A cancellation takes a subscription away. -/
theorem isolated_canceledBy : db.Isolated (db.canceledBy e) e.channel ↔ db.KeepsCancellation e := by
  unfold KeepsCancellation
  cases hfound : db.findWorkspaceBySubscription e.subscriptionRef with
  | none =>
    rw [canceledBy_none hfound]
    exact ⟨fun _ row h => (nomatch h), fun _ => .refl⟩
  | some row =>
    obtain ⟨hrow, hsub⟩ := workspace_of_subscription hfound
    have hne : row.unsubscribe.entitlement ≠ row.entitlement := by
      intro h
      have href : row.subscriptionRef = none := (Prod.mk.inj (Prod.mk.inj h).2).1.symm
      rw [href] at hsub
      cases hsub
    rw [(@touches_canceledBy _ _ "" _ hfound).isolated, hrow]
    simp only [Option.some.injEq, forall_eq', implies_true, true_and]
    exact ⟨fun h hbought => hne (h hbought), fun h hbought => absurd hbought h⟩

theorem isolated_handled : db.Isolated (db.handled e now) e.channel ↔ db.KeepsTo e now := by
  unfold handled KeepsTo
  cases e.type with
  | checkoutCompleted => exact isolated_paidBy
  | paymentFailed => exact isolated_failedBy
  | refundCreated => exact isolated_refundedBy
  | subscriptionRenewed => exact isolated_renewedBy
  | subscriptionCanceled => exact isolated_canceledBy
  | other name => exact ⟨fun _ => trivial, fun _ => .refl⟩

theorem isolated_delivered {w : World} (hdb : db.Consistent) :
    db.Isolated (delivered w e now db) e.channel ↔ (db.Accepts e → db.KeepsTo e now) := by
  by_cases haccept : db.Accepts e
  · obtain ⟨events, hdeliv⟩ := @delivered_accepted w e now db hdb haccept
    rw [hdeliv]
    have hevents : db.Isolated ((db.handled e now).withEvents events) e.channel ↔
        db.Isolated (db.handled e now) e.channel :=
      ⟨fun h => ⟨h.orders, h.workspaces⟩, fun h => ⟨h.orders, h.workspaces⟩⟩
    rw [hevents, isolated_handled]
    exact ⟨fun h _ => h, fun h => h haccept⟩
  · rw [delivered_refused haccept]
    exact ⟨fun _ h => absurd h haccept, fun _ => .refl⟩

end Db

/-- A verified webhook of a channel leaves the orders of the other channels, and what
workspaces have bought through them, exactly if the rows that its event finds are of
its own channel or are already as the event leaves them. -/
theorem channels_isolated_iff {db : Db} (hdb : db.Consistent) {channels : ChannelSet} {name : String}
    {req : WebhookRequest} {now : Time} {e : PaymentEvent}
    (he : (Request.webhook channels name req now).event = some e) (w : World) :
    db.Isolated (serve w (.webhook channels name req now) db) e.channel ↔
      (db.Accepts e → db.KeepsTo e now) := by
  rcases Request.script_webhook channels name req now with ⟨e', he', hscript⟩ | ⟨hnone, -⟩
  · cases he.symm.trans he'
    rw [serve, hscript]
    exact Db.isolated_delivered hdb
  · cases he.symm.trans hnone

/-- The refund of order o1, signed by a channel. -/
def refundSignedBy (channel : String) : PaymentEvent where
  channel := channel
  channelEventID := "e9"
  type := .refundCreated
  orderID := "o1"

theorem channels_isolated_iff_sameChannel : subscribed.Isolated
    (serve (smallWorld 5) (.ofEvent (refundSignedBy "paypal") 40) subscribed) "paypal" := by
  have hchannel : (subscribed.resolve (refundSignedBy "paypal")).map OrderRow.channel
      = some "paypal" := by decide
  have hws : (subscribed.resolve (refundSignedBy "paypal")).map OrderRow.workspaceID = some "w1" := by
    decide
  have hbought : (subscribed.entitledBy "w1").map OrderRow.channel = some "paypal" := by decide
  refine (channels_isolated_iff subscribed_reachable.consistent (e := refundSignedBy "paypal") rfl
    (smallWorld 5)).2 fun _ o hres _ => ?_
  rw [hres, Option.map_some, Option.some.injEq] at hchannel hws
  refine ⟨hchannel, fun ⟨o', ho', hne⟩ => ?_⟩
  rw [hws] at ho'
  rw [ho', Option.map_some, Option.some.injEq] at hbought
  exact absurd hbought hne

/-- A refund that one channel signs takes back what another has sold. -/
theorem refund_crosses_channels : ∃ db channels name req now e w, Reachable db ∧
    (Request.webhook channels name req now).event = some e ∧
    ¬ db.Isolated (serve w (.webhook channels name req now) db) e.channel := by
  refine ⟨subscribed, fun name => some (smallChannel name (refundSignedBy "stripe")), "stripe",
    ⟨[], []⟩, 40, refundSignedBy "stripe", smallWorld 5, subscribed_reachable, rfl, fun hiso => ?_⟩
  have hbefore : (subscribed.order "o1").map (fun o => (o.channel, o.status))
      = some ("paypal", .paid) := by decide
  have hafter : ((serve (smallWorld 5) (.ofEvent (refundSignedBy "stripe") 40) subscribed).order
      "o1").map OrderRow.status = some .refunded := by decide
  obtain ⟨o, ho, hcols⟩ := Option.map_eq_some_iff.1 hbefore
  obtain ⟨hchannel, hstatus⟩ := Prod.mk.inj hcols
  have hne : o.channel ≠ (refundSignedBy "stripe").channel := by
    rw [hchannel]
    decide
  have hkept : (serve (smallWorld 5) (.ofEvent (refundSignedBy "stripe") 40) subscribed).order "o1"
      = some o := hiso.orders "o1" o ho hne
  rw [hkept, Option.map_some, hstatus] at hafter
  cases hafter

/-! ## Where a cancellation is sent -/

/-- The request asks the channel to cancel the subscription. -/
def Op.Cancels (channel ref : String) : {β : Type} → Op β → Prop
  | _, .cancelSubscription channel' ref' => channel' = channel ∧ ref' = ref
  | _, _ => False

/-- The orders that `locateSubscriptionChannel` looks for. -/
def OrderRow.Recurring (o : OrderRow) : Prop := o.status = .paid ∧ o.interval ≠ .oneTime

instance : DecidablePred OrderRow.Recurring := fun o => by unfold OrderRow.Recurring; infer_instance

/-- The first of the newest orders that is paid and recurring. -/
def Db.locatedOrder (db : Db) (ws : String) : Option OrderRow :=
  (db.ordersByWorkspace ws 20).find? fun o => o.Recurring

/-- An event of the channel has given the workspace its subscription reference, and the
workspace has kept it since. -/
def Db.Issued (db : Db) (ws : String) (ref : SubscriptionRef) (channel : String) : Prop :=
  ∃ db₀ past db₁ rq e db₂ past', Installed db₀ ∧ Run (fun db db' => ∃ rq, Serves rq db db') db₀ past db₁ ∧
    rq.event = some e ∧ e.channel = channel ∧ Serves rq db₁ db₂ ∧
    (db₁.workspace ws).bind Workspace.subscriptionRef ≠ some ref ∧
    Run (fun db db' => ∃ rq, Serves rq db db') db₂ past' db ∧
    ∀ db' ∈ db :: past', (db'.workspace ws).bind Workspace.subscriptionRef = some ref

/-- A user or an admin cancels the subscription of the workspace. -/
def Request.Unsubscribes (channels : ChannelSet) (ws : String) : Request → Prop
  | .userCancelSubscription channels' _ ws' _ => channels' = channels ∧ ws' = ws
  | .adminCancelSubscription channels' _ ws' _ => channels' = channels ∧ ws' = ws
  | _ => False

theorem locateChannel_map {channels : ChannelSet} {orders : List OrderRow} {ch : Channel} :
    (locateChannel channels (orders.map scanOrder)).1 = some ch ↔
      ∃ o, orders.find? (fun o => o.Recurring) = some o ∧ channels o.channel = some ch := by
  induction orders with
  | nil => simp [locateChannel]
  | cons o orders ih =>
    simp only [List.map_cons, locateChannel, List.find?_cons]
    by_cases hrec : o.Recurring
    · have hrec' : ¬ ((scanOrder o).status ≠ .paid ∨ (scanOrder o).interval = .oneTime) := by
        rintro (h | h)
        · exact h hrec.1
        · exact hrec.2 h
      have hchannel : channels (scanOrder o).channel = channels o.channel := rfl
      simp only [if_neg hrec', hrec, decide_true, Option.some.injEq, exists_eq_left', hchannel]
      cases channels o.channel <;> simp
    · have hrec' : (scanOrder o).status ≠ .paid ∨ (scanOrder o).interval = .oneTime := by
        by_contra h
        exact hrec ⟨not_not.1 fun hs => h (.inl hs), fun hi => h (.inr hi)⟩
      simp only [if_pos hrec', hrec, decide_false, ih]

section

variable {w : World} {may : {β : Type} → Op β → Db → Prop} {db db' : Db} {channels : ChannelSet} {ws : String}

/-- A read is answered from the tables, or fails. -/
theorem Op.Does.read {α : Type} {o : Op (Except Err α)} {a : α} {r : Except Err α}
    (h : o.Does w may db r db') (hread : o.exec w db = (.ok a, db))
    (hfail : ∀ err, o.failed err = .error err) : db' = db ∧ (r = .ok a ∨ ∃ err, r = .error err) := by
  rcases h with hexec | ⟨⟨-, msg, rfl⟩, rfl⟩
  · obtain ⟨hr, hdb⟩ := Prod.mk.inj (hread.symm.trans hexec)
    exact ⟨hdb.symm, .inl hr.symm⟩
  · exact ⟨rfl, .inr ⟨_, hfail _⟩⟩

theorem calls_locateSubscriptionChannel_cancels {ch ref : String} :
    (locateSubscriptionChannel channels ws).Calls fun o => ¬ o.Cancels ch ref :=
  .seq (fun h => h) fun r => by cases r <;> trivial

/-- What is located is located among the newest orders. -/
theorem path_locateSubscriptionChannel {r : Except Err (Option Channel × String)}
    (h : Path (Op.Does w may) (locateSubscriptionChannel channels ws) db (.ret r) db') :
    db' = db ∧ ∀ located, r = .ok located → ∀ ch, located.1 = some ch →
      ∃ o, db.locatedOrder ws = some o ∧ channels o.channel = some ch := by
  obtain ⟨r₁, s₁, hread, h⟩ := h.call_ret
  obtain ⟨rfl, rfl | ⟨err, rfl⟩⟩ := hread.read rfl fun _ => rfl
  · obtain ⟨hr, rfl⟩ := h.ret_eq
    refine ⟨rfl, fun located hlocated ch hch => ?_⟩
    cases hr
    cases hlocated
    exact locateChannel_map.1 hch
  · obtain ⟨hr, rfl⟩ := h.ret_eq
    cases hr
    exact ⟨rfl, fun _ hlocated => nomatch hlocated⟩

theorem calls_requestCancel_cancels {outcome : CancelOutcome} {now : Time} {ch ref : String} :
    (requestCancel ws outcome now).Calls fun o => ¬ o.Cancels ch ref :=
  .seq (fun h => h) fun r => by cases r <;> trivial

theorem calls_replayCancelOutcome_cancels {subRef plan ch ref : String} :
    (replayCancelOutcome channels ws subRef plan).Calls fun o => ¬ o.Cancels ch ref := by
  refine .ite (fun _ => trivial) fun _ => .ite (fun _ => ?_) fun _ => trivial
  refine calls_locateSubscriptionChannel_cancels.bind fun r => ?_
  cases r with
  | error err => trivial
  | ok located =>
    simp only [orReturn]
    cases located.1 with
    | none => trivial
    | some ch => exact .ite (fun _ => trivial) fun _ => trivial

/-- A user's cancellation is sent to the channel of the located order. -/
theorem userCancelSubscription_cancels {p : Option Principal} {now : Time}
    {m : Svc (Except Err CancelOutcome)} {ch ref : String}
    (h : Path (Op.Does w may) (userCancelSubscription channels p ws now) db m db')
    (hm : m.Next (Op.Cancels ch ref)) {row : Workspace} (hrow : db.workspace ws = some row) :
    ref = (row.subscriptionRef.map Subtype.val).getD "" ∧ ∃ o channel, db.locatedOrder ws = some o ∧
      channels o.channel = some channel ∧ channel.cancelsSubscriptions ∧ channel.name = ch := by
  cases p with
  | none => exact absurd hm (h.not_next trivial)
  | some p =>
  unfold userCancelSubscription at h
  simp only [] at h
  split at h
  · exact absurd hm (h.not_next trivial)
  split at h
  · exact absurd hm (h.not_next trivial)
  -- The workspace is read, and nothing else changes until the channel is asked.
  obtain ⟨r, s₁, hread, h⟩ := h.call_next hm fun h => h
  obtain ⟨rfl, rfl | ⟨err, rfl⟩⟩ := hread.read rfl fun _ => rfl
  case inr => exact absurd hm (h.not_next trivial)
  rw [hrow] at h
  simp only [Option.map_some, orReturn] at h
  obtain ⟨r, s₁, hread, h⟩ := h.call_next hm fun h => h
  obtain ⟨rfl, rfl | ⟨err, rfl⟩⟩ := hread.read rfl fun _ => rfl
  case inr => exact absurd hm (h.not_next trivial)
  obtain ⟨r, s₁, hread, h⟩ := h.call_next hm fun h => h
  obtain ⟨rfl, rfl | ⟨err, rfl⟩⟩ := hread.read rfl fun _ => rfl
  case inr => exact absurd hm (h.not_next trivial)
  simp only [ret_bind] at h
  split at h
  · exact absurd hm (h.not_next calls_replayCancelOutcome_cancels)
  split at h
  · exact absurd hm (h.not_next trivial)
  split at h
  · exact absurd hm (h.not_next calls_requestCancel_cancels)
  obtain ⟨r, s₁, hlocate, h⟩ := h.bind_next hm calls_locateSubscriptionChannel_cancels
  obtain ⟨rfl, hlocated⟩ := path_locateSubscriptionChannel hlocate
  cases r with
  | error err => exact absurd hm (h.not_next trivial)
  | ok located =>
  simp only [] at h
  cases hfilter : located.1.filter Channel.cancelsSubscriptions with
  | none =>
    rw [hfilter] at h
    exact absurd hm (h.not_next calls_requestCancel_cancels)
  | some channel =>
  rw [hfilter] at h
  obtain ⟨hch, hcancels⟩ := Option.filter_eq_some_iff.1 hfilter
  obtain ⟨o, ho, hchannel⟩ := hlocated located rfl channel hch
  rcases h.call_cases with ⟨rfl, -⟩ | ⟨r, s₁, -, h⟩
  · obtain ⟨hname, href⟩ := hm
    exact ⟨href.symm, o, channel, ho, hchannel, hcancels, hname⟩
  · refine absurd hm (h.not_next ?_)
    rcases r with err | _
    · trivial
    refine .ite (fun _ => ?_) fun _ => calls_requestCancel_cancels
    refine .seq (fun h => h) fun _ => calls_orReturn fun () => ?_
    exact .seq (fun h => h) fun _ => calls_orReturn fun () => trivial

/-- So is an admin's. -/
theorem adminCancelSubscription_cancels {actor : Option Principal} {now : Time}
    {m : Svc (Except Err Unit)} {ch ref : String}
    (h : Path (Op.Does w may) (adminCancelSubscription channels actor ws now) db m db')
    (hm : m.Next (Op.Cancels ch ref)) {row : Workspace} (hrow : db.workspace ws = some row) :
    ref = (row.subscriptionRef.map Subtype.val).getD "" ∧ ∃ o channel, db.locatedOrder ws = some o ∧
      channels o.channel = some channel ∧ channel.cancelsSubscriptions ∧ channel.name = ch := by
  have hdowngrade : (op (.changeWorkspacePlan ws "free" (adminActor actor) "admin cancel" now)
      >>= fun r => orReturn r fun () => op (.setWorkspaceSubscription ws "" zeroTime now)
      >>= fun r => orReturn r fun () => op (.clearWorkspaceCancelRequested ws) :
      Svc (Except Err Unit)).Calls fun o => ¬ o.Cancels ch ref := by
    refine .seq (fun h => h) fun _ => calls_orReturn fun () => ?_
    exact .seq (fun h => h) fun _ => calls_orReturn fun () => by rw [calls_op]; exact fun h => h
  unfold adminCancelSubscription at h
  obtain ⟨r, s₁, hread, h⟩ := h.call_next hm fun h => h
  obtain ⟨rfl, rfl | ⟨err, rfl⟩⟩ := hread.read rfl fun _ => rfl
  case inr => exact absurd hm (h.not_next trivial)
  rw [hrow] at h
  simp only [Option.map_some, orReturn] at h
  obtain ⟨r, s₁, hread, h⟩ := h.call_next hm fun h => h
  obtain ⟨rfl, rfl | ⟨err, rfl⟩⟩ := hread.read rfl fun _ => rfl
  case inr => exact absurd hm (h.not_next trivial)
  simp only [ret_bind] at h
  split at h
  · exact absurd hm (h.not_next trivial)
  split at h
  case isFalse => exact absurd hm (h.not_next hdowngrade)
  obtain ⟨r, s₁, hlocate, h⟩ := h.bind_next hm calls_locateSubscriptionChannel_cancels
  obtain ⟨rfl, hlocated⟩ := path_locateSubscriptionChannel hlocate
  rcases r with err | ⟨_ | channel, reason⟩
  · exact absurd hm (h.not_next trivial)
  · exact absurd hm (h.not_next trivial)
  simp only [] at h
  split at h
  · exact absurd hm (h.not_next trivial)
  rename_i hcancels
  obtain ⟨o, ho, hchannel⟩ := hlocated _ rfl channel rfl
  rcases h.call_cases with ⟨rfl, -⟩ | ⟨r, s₁, -, h⟩
  · obtain ⟨hname, href⟩ := hm
    exact ⟨href.symm, o, channel, ho, hchannel, not_not.1 hcancels, hname⟩
  · refine absurd hm (h.not_next ?_)
    rcases r with err | _
    · trivial
    · exact hdowngrade

/-- An admin's cancellation gets to ask the channel of the located order. -/
theorem adminCancelSubscription_asks {actor : Option Principal} {now : Time} {row : Workspace}
    {ref : SubscriptionRef} {o : OrderRow} {channel : Channel} (hrow : db.workspace ws = some row)
    (hsub : row.subscriptionRef = some ref) (ho : db.locatedOrder ws = some o)
    (hchannel : channels o.channel = some channel) (hcancels : channel.cancelsSubscriptions) :
    ∃ m db', Path (Op.Does w anyFails) (adminCancelSubscription channels actor ws now) db m db' ∧
      m.Next (Op.Cancels channel.name ref) := by
  have hlocated : (locateChannel channels ((db.ordersByWorkspace ws 20).map scanOrder)).1
      = some channel := locateChannel_map.2 ⟨o, ho, hchannel⟩
  have hpath := @path_advance _ _ _ (Op.exec w) 3 (adminCancelSubscription channels actor ws now) db
  refine ⟨_, _, hpath.mono fun _ _ _ _ h => .inl h, ?_⟩
  have hempty : ¬ ref.val = "" := ref.2
  simp only [adminCancelSubscription, advance, bind_eq, op_bind, Op.exec, hrow, hsub, hempty,
    Option.map_some, Option.getD_some, orReturn, false_and, if_false, ne_eq, not_false_eq_true, if_true,
    locateSubscriptionChannel, call_bind]
  generalize locateChannel channels _ = located at hlocated ⊢
  obtain ⟨ch, reason⟩ := located
  cases hlocated
  simp only [pure_eq, ret_bind, hcancels, not_true_eq_false, if_false]
  exact ⟨rfl, rfl⟩

theorem path_void {α : Type} {m : Svc (Except Err α)} {n : Svc (Except Err Unit)}
    {P : {β : Type} → Op β → Prop} (h : Path (Op.Does w may) (void m) db n db') (hn : n.Next P) :
    ∃ n', Path (Op.Does w may) m db n' db' ∧ n'.Next P := by
  rcases Path.bind_cases h with ⟨n', rfl, hpath⟩ | ⟨a, s₁, -, hret⟩
  · cases n' with
    | ret a => exact hn.elim
    | call o k => exact ⟨_, hpath, hn⟩
  · obtain ⟨rfl, -⟩ := hret.ret_eq
    exact hn.elim

end

/-- Users and admins who cancel a subscription, with calls that fail and wherever the
process stops, send the cancellation to the channel that has issued the reference
exactly if that is the channel of the first of the newest orders that is paid and
recurring, or if there is no such order or no such channel to cancel with. -/
theorem cancel_reaches_issuer_iff {db : Db} {ws issuer : String} {ref : SubscriptionRef}
    (hissued : db.Issued ws ref issuer) (channels : ChannelSet) :
    (∀ rq, Request.Unsubscribes channels ws rq → ∀ w m db',
        Path (Op.Does w anyFails) rq.script db m db' → ∀ ch ref', m.Next (Op.Cancels ch ref') →
          ch = issuer ∧ ref' = ref.val) ↔
      ∀ o ch, db.locatedOrder ws = some o → channels o.channel = some ch → ch.cancelsSubscriptions →
        ch.name = issuer := by
  obtain ⟨row, hrow, hsub⟩ : ∃ row, db.workspace ws = some row ∧ row.subscriptionRef = some ref := by
    obtain ⟨_, _, _, _, _, _, _, _, _, _, _, _, _, _, hkept⟩ := hissued
    exact Option.bind_eq_some_iff.1 (hkept db List.mem_cons_self)
  have hstored : (row.subscriptionRef.map Subtype.val).getD "" = ref.val := by rw [hsub]; rfl
  constructor
  · intro hsent o ch ho hchannel hcancels
    obtain ⟨m, db', hpath, hm⟩ := @adminCancelSubscription_asks (smallWorld 0) db channels ws none 0 row
      ref o ch hrow hsub ho hchannel hcancels
    exact (hsent (.adminCancelSubscription channels none ws 0) ⟨rfl, rfl⟩ _ m db' hpath ch.name ref hm).1
  · intro hlocated rq hrq w m db' hpath ch ref' hm
    have hasked : ref' = (row.subscriptionRef.map Subtype.val).getD "" ∧ ∃ o channel,
        db.locatedOrder ws = some o ∧ channels o.channel = some channel ∧ channel.cancelsSubscriptions ∧
          channel.name = ch := by
      cases rq with
      | userCancelSubscription channels' p ws' now =>
        obtain ⟨rfl, rfl⟩ := hrq
        obtain ⟨n, hn, hnext⟩ := path_void hpath hm
        exact userCancelSubscription_cancels hn hnext hrow
      | adminCancelSubscription channels' actor ws' now =>
        obtain ⟨rfl, rfl⟩ := hrq
        exact adminCancelSubscription_cancels hpath hm hrow
      | _ => exact hrq.elim
    obtain ⟨href, o, channel, ho, hchannel, hcancels, rfl⟩ := hasked
    exact ⟨hlocated o channel ho hchannel hcancels, href.trans hstored⟩

/-- The payment of an order that a channel reports. -/
def paymentOf (channel eventID orderID sub : String) : PaymentEvent where
  channel := channel
  channelEventID := eventID
  type := .checkoutCompleted
  orderID := orderID
  subscriptionRef := sub
  amountCents := 900
  currency := "USD"

theorem Db.Issued.subscribed : subscribed.Issued "w1" ⟨"s1", by decide⟩ "paypal" := by
  have hbuy : Run (fun db db' => ∃ rq, Serves rq db db') (smallDb 0) [smallDb 0]
      (serve (smallWorld 5) (.buy "w1" .monthly "paypal" 10) (smallDb 0)) :=
    .next .start ⟨_, serves_serve _ _ _⟩
  refine ⟨_, _, _, .ofEvent (paymentOf "paypal" "e1" "o1" "s1") 20, _, Billing.subscribed, [],
    smallDb_installed 0, hbuy, rfl, rfl, serves_serve (smallWorld 5) _ _, by decide, .start, ?_⟩
  intro db' hdb'
  rw [List.mem_singleton] at hdb'
  subst hdb'
  decide

/-- The channel of a subscription is known where no other order is paid. -/
theorem cancel_reaches_issuer_iff_subscribed : (subscribed.locatedOrder "w1").map OrderRow.channel = some "paypal" ∧ ∀ rq,
    Request.Unsubscribes (fun name => some (smallChannel name (paymentOf name "" "" ""))) "w1" rq →
      ∀ w m db', Path (Op.Does w anyFails) rq.script subscribed m db' →
        ∀ ch ref', m.Next (Op.Cancels ch ref') → ch = "paypal" ∧ ref' = "s1" := by
  have hlocated : (subscribed.locatedOrder "w1").map OrderRow.channel = some "paypal" := by decide
  refine ⟨hlocated, (cancel_reaches_issuer_iff Db.Issued.subscribed _).2 fun o ch ho hchannel _ => ?_⟩
  rw [ho, Option.map_some, Option.some.injEq] at hlocated
  cases hchannel
  exact hlocated

/-- The subscription is bought, and an order of another channel is paid after it. -/
def boughtTwice : Db :=
  serveAll (smallWorld 9) [.buy "w1" .monthly "stripe" 50,
    .ofEvent (paymentOf "stripe" "e2" "o2" "") 60] subscribed

theorem Db.Issued.boughtTwice : boughtTwice.Issued "w1" ⟨"s1", by decide⟩ "paypal" := by
  obtain ⟨db₀, past, db₁, rq, e, db₂, past', h₀, hrun, he, hch, hserves, hbefore, hlater, hkept⟩ :=
    Db.Issued.subscribed
  have hbuy : ((serve (smallWorld 9) (.buy "w1" .monthly "stripe" 50) Billing.subscribed).workspace
      "w1").bind Workspace.subscriptionRef = some ⟨"s1", by decide⟩ := by decide
  have hpay : (Billing.boughtTwice.workspace "w1").bind Workspace.subscriptionRef
      = some ⟨"s1", by decide⟩ := by decide
  have hbought : Run (fun db db' => ∃ rq, Serves rq db db') db₂ (Billing.subscribed :: past') _ :=
    hlater.next ⟨_, serves_serve (smallWorld 9) (.buy "w1" .monthly "stripe" 50) _⟩
  exact ⟨db₀, past, db₁, rq, e, db₂, _, h₀, hrun, he, hch, hserves, hbefore,
    hbought.next ⟨_, serves_serve (smallWorld 9) (.ofEvent (paymentOf "stripe" "e2" "o2" "") 60) _⟩,
    List.forall_mem_cons.2 ⟨hpay, List.forall_mem_cons.2 ⟨hbuy, hkept⟩⟩⟩

/-- The cancellation of the subscription of one channel is sent to another. -/
theorem cancel_misses_issuer : ∃ db ws ref issuer channels rq w m db' ch, Db.Issued db ws ref issuer ∧
    Request.Unsubscribes channels ws rq ∧ Path (Op.Does w anyFails) rq.script db m db' ∧
      m.Next (Op.Cancels ch ref.val) ∧ ch ≠ issuer := by
  have hlocated : (boughtTwice.locatedOrder "w1").map OrderRow.channel = some "stripe" := by decide
  have hsub : (boughtTwice.workspace "w1").map Workspace.subscriptionRef
      = some (some ⟨"s1", by decide⟩) := by decide
  obtain ⟨o, ho, hchannel⟩ := Option.map_eq_some_iff.1 hlocated
  obtain ⟨row, hrow, href⟩ := Option.map_eq_some_iff.1 hsub
  obtain ⟨m, db', hpath, hnext⟩ := @adminCancelSubscription_asks (smallWorld 9) boughtTwice
    (fun name => some (smallChannel name (paymentOf name "" "" ""))) "w1" none 70 row _ o _ hrow href ho rfl rfl
  refine ⟨boughtTwice, "w1", _, "paypal", _, .adminCancelSubscription _ none "w1" 70, _, m, db', _,
    Db.Issued.boughtTwice, ⟨rfl, rfl⟩, hpath, hnext, ?_⟩
  rw [smallChannel, hchannel]
  decide

end Ploykit.Billing

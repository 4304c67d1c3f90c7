import Ploykit.Billing.Rows

/-!
# Renewals

A renewal finds its workspace by the subscription reference, its price by the
order the event names, and its interval by the latest paid order. Where the sweep
has downgraded the workspace, only an event with an order id brings the plan back.
-/

namespace Ploykit.Billing

open Lib Script

section

variable {db : Db} {e : PaymentEvent} {w : World} {now : Time}

/-- The workspaces after the delivery of a renewal. -/
theorem workspace_renewal (hdb : db.Consistent) (htype : e.type = .subscriptionRenewed)
    (haccept : db.Accepts e) (id : String) : (delivered w e now db).workspace id
      = if db.RefusesRenewal e then db.workspace id else (db.extendedBy e now).workspace id := by
  obtain ⟨events, hdeliv⟩ := @delivered_accepted w e now db hdb haccept
  have hhandled : db.handled e now = db.renewedBy e now := by simp [Db.handled, htype]
  rw [hdeliv, hhandled]
  exact Db.workspace_renewedBy

/-- The plan that a renewal leaves a workspace on. -/
theorem Db.restoredPlan_eq {plan current : String} (hplan : plan ≠ "free") :
    db.restoredPlan e current = plan ↔ current = plan ∨ current = "free" ∧ e.orderID ≠ "" ∧
      plan ≠ "" ∧ (db.order e.orderID).map OrderRow.planCode = some plan := by
  unfold restoredPlan
  by_cases hfree : e.orderID ≠ "" ∧ current = "free"
  · rw [if_pos hfree]
    obtain ⟨hid, rfl⟩ := hfree
    cases ho : db.order e.orderID with
    | none => simp [hplan.symm]
    | some o =>
      by_cases hempty : o.planCode = ""
      · simp only [hempty, ne_eq, not_true_eq_false, if_false, Option.map_some, Option.some.injEq]
        constructor
        · exact fun h => .inl h
        · rintro (h | ⟨-, -, hne, h⟩)
          · exact h
          · exact absurd h.symm hne
      · simp only [hempty, ne_eq, not_false_eq_true, if_true, Option.map_some, Option.some.injEq]
        constructor
        · rintro rfl
          exact .inr ⟨trivial, hid, hempty, rfl⟩
        · rintro (h | ⟨-, -, -, h⟩)
          · exact absurd h.symm hplan
          · exact h
  · rw [if_neg hfree]
    constructor
    · exact fun h => .inl h
    · rintro (h | ⟨hcur, hid, -⟩)
      · exact h
      · exact absurd ⟨hid, hcur⟩ hfree

end

/-! ### A subscription that has lapsed -/

/-- A monthly subscription is bought and paid; its order is o1. -/
def subscribed : Db :=
  serveAll (smallWorld 5) [.buy "w1" .monthly "paypal" 10,
    .ofEvent { channel := "paypal", channelEventID := "e1", type := .checkoutCompleted, orderID := "o1",
               subscriptionRef := "s1", amountCents := 900, currency := "USD" } 20] (smallDb 0)

theorem subscribed_reachable : Reachable subscribed := (smallDb_installed 0).reachable.serveAll

/-- The renewal of the subscription, as a channel reports it that knows the order or not. -/
def renewal (orderID : String) (amount : Int) (currency : String) : PaymentEvent where
  channel := "paypal"
  channelEventID := "e2"
  type := .subscriptionRenewed
  orderID := orderID
  subscriptionRef := "s1"
  amountCents := amount
  currency := currency

/-- The sweep has downgraded the workspace. -/
def lapsed : Db := serveAll (smallWorld 5) [.expireDueWorkspaces 3000000000000 10] subscribed

theorem lapsed_reachable : Reachable lapsed := subscribed_reachable.serveAll

section

variable {db : Db} {e : PaymentEvent}

/-- A renewal of positive amount that changes a workspace. The workspace holds the
subscription. If the plan of the order that the event names has a price for the
order's interval, then the amount is that price and the currency is not another
than the order's. If the order is the latest one paid for the workspace, then the
period is that of the order. -/
theorem renewal_extends (hdb : Reachable db) (htype : e.type = .subscriptionRenewed)
    (hpos : 0 < e.amountCents) (hid : e.orderID ≠ "") {o : OrderRow}
    (ho : db.order e.orderID = some o) (w : World) (now : Time) {id : String} {row row' : Workspace}
    (hrow : db.workspace id = some row)
    (hrow' : (delivered w e now db).workspace id = some row') (hne : row' ≠ row) :
    row.subscriptionRef.map Subtype.val = some e.subscriptionRef ∧
      (∀ plan, db.plan o.planCode = some plan → 0 < planAmountCents plan o.interval →
        e.amountCents = planAmountCents plan o.interval ∧
          currencyMismatch e.currency o.currency = false) ∧
      ∀ o', db.latestPaidOrder id = some o' → o'.id = o.id →
        o.workspaceID = id ∧ row'.planExpiresAt = some (addInterval now o.interval 0) := by
  have hkeep : (delivered w e now db).workspace id ≠ db.workspace id := by
    rw [hrow, hrow']
    exact fun h => hne (Option.some.inj h)
  have haccept : db.Accepts e := by
    by_contra h
    exact hkeep (by rw [delivered_refused h])
  have hws := @workspace_renewal db e w now hdb.consistent htype haccept id
  have hamount : ¬ db.RefusesRenewal e := by
    intro h
    exact hkeep (hws.trans (if_pos h))
  rw [if_neg hamount] at hws
  -- The one workspace that changes is the one that the subscription finds.
  cases hfound : db.findWorkspaceBySubscription e.subscriptionRef with
  | none => exact absurd (hws.trans (by rw [Db.extendedBy_none hfound])) hkeep
  | some found =>
    have hidFound : id = found.id := by
      by_contra h
      exact hkeep (hws.trans (Db.workspace_extendedBy_ne hfound h))
    subst hidFound
    obtain ⟨hget, hsub⟩ := Db.workspace_of_subscription hfound
    rw [hget, Option.some.injEq] at hrow
    subst hrow
    rw [hrow', Db.workspace_extendedBy hfound, Option.some.injEq] at hws
    have href : e.subscriptionRef ≠ "" := by
      obtain ⟨ref, -, href⟩ := Option.map_eq_some_iff.1 hsub
      exact href ▸ ref.2
    have hexpiry : row'.planExpiresAt = some (db.renewalExpiry found.id now) := by
      rw [hws]
      simp [Workspace.setPlan, Workspace.setSubscription, href]
    refine ⟨hsub, fun plan hplan hprice => ?_, fun o' hlatest hid' => ?_⟩
    · have hmis : db.renewalAmountMismatch e = false := by
        simpa [Db.RefusesRenewal, hid] using hamount
      have hpos' : ¬ e.amountCents ≤ 0 := Int.not_le.2 hpos
      have hprice' : ¬ planAmountCents plan o.interval ≤ 0 := Int.not_le.2 hprice
      simp only [Db.renewalAmountMismatch, if_neg hpos', ho, hplan, if_neg hprice',
        Bool.or_eq_false_iff, decide_eq_false_iff_not, ne_eq, not_not] at hmis
      exact ⟨hmis.2.symm, hmis.1⟩
    · have hmem := List.mem_filter.1 (Table.mem_of_first hlatest)
      have hget' : db.order o'.id = some o' := Keyed.get_of_mem hmem.1
      have hkey : o.id = e.orderID := Keyed.key_of_get ho
      rw [hid', hkey, ho] at hget'
      cases hget'
      refine ⟨(of_decide_eq_true hmem.2).1, ?_⟩
      rw [hexpiry, Db.renewalExpiry, Db.renewalInterval, hlatest]
      rfl

end

theorem renewal_extends_subscribed : ∃ row row', subscribed.workspace "w1" = some row ∧
    (delivered (smallWorld 5) (renewal "o1" 900 "USD") 30 subscribed).workspace "w1" = some row' ∧
      row.subscriptionRef.map Subtype.val = some "s1" ∧
      row'.planExpiresAt = some (addInterval 30 .monthly 0) := by
  refine ⟨_, _, rfl, rfl, ?_⟩
  obtain ⟨hsub, -, hlatest⟩ := @renewal_extends _ (renewal "o1" 900 "USD")
    subscribed_reachable rfl (by decide) (by decide) _ rfl (smallWorld 5) 30 "w1" _ _ rfl rfl (by decide)
  exact ⟨hsub, (hlatest _ rfl rfl).2⟩

/-- The month is over, and its overage has become the order o2. -/
def metered : Db := serveAll (smallWorld 6) [.meterDueOverages smallConfig 30 10] subscribed

/-- A renewal extends the workspace whatever its amount when the order it names has
no price, and without a currency when it has one. -/
theorem renewal_extends_unpriced :
    (∃ db w e now ws, Reachable db ∧ e.type = .subscriptionRenewed ∧ 0 < e.amountCents ∧
      (db.order e.orderID).map OrderRow.workspaceID = some ws ∧
      ((delivered w e now db).workspace ws).map Workspace.planExpiresAt
        ≠ (db.workspace ws).map Workspace.planExpiresAt ∧
      ((db.order e.orderID).bind fun o => (db.plan o.planCode).map (planAmountCents · o.interval))
        ≠ some e.amountCents) ∧
    ∃ db w e now ws, Reachable db ∧ e.type = .subscriptionRenewed ∧ 0 < e.amountCents ∧
      (db.order e.orderID).map OrderRow.workspaceID = some ws ∧
      ((delivered w e now db).workspace ws).map Workspace.planExpiresAt
        ≠ (db.workspace ws).map Workspace.planExpiresAt ∧
      ((db.order e.orderID).bind fun o => (db.plan o.planCode).map Plan.currency) ≠ some e.currency :=
  ⟨⟨metered, smallWorld 5, renewal "o2" 7 "USD", 40, "w1", subscribed_reachable.serveAll,
      by decide +kernel⟩,
    ⟨subscribed, smallWorld 5, renewal "o1" 900 "", 40, "w1", subscribed_reachable,
      by decide +kernel⟩⟩

end Ploykit.Billing

import Ploykit.Billing.Rows

/-!
# Payments

An order keeps one payment reference in its metadata. The payment of its checkout
and those of its renewals are all written there, each over the one before, and a
refund that names nothing but a payment is looked up there.
-/

namespace Ploykit.Billing

open Lib Script

/-- The payment reference that is recorded for the order. -/
def Db.recordedRef (db : Db) (id : String) : Option String :=
  (db.order id).bind fun o => o.metadata.paymentIntent

/-- The order that the payment of the event is recorded for. -/
def Db.recordedFor (db : Db) (e : PaymentEvent) : Option String :=
  if e.paymentIntentRef = "" then none
  else match e.type with
    | .checkoutCompleted =>
      (db.resolve e).bind fun o => if amountMismatch (scanOrder o) e then none else some o.id
    | .subscriptionRenewed => if e.orderID = "" then none else (db.order e.orderID).map OrderRow.id
    | _ => none

/-! ## Calls of services -/

section

variable {db db' : Db} {w : World} {id : String}

theorem Db.recordedRef_of_orders (h : db'.orders = db.orders) :
    db'.recordedRef id = db.recordedRef id := by
  rw [recordedRef, order, h]
  rfl

theorem Db.recordedRef_update {ids : List String} (f : OrderRow → OrderRow) (hf : ∀ o, (f o).id = o.id)
    (hmeta : ∀ o : OrderRow, (f o).metadata = o.metadata) (h : db'.orders = db.orders.update ids f hf) :
    db'.recordedRef id = db.recordedRef id := by
  rw [recordedRef, order, h, Keyed.get_update]
  split
  · rw [recordedRef, order]
    cases db.orders.get id with
    | none => rfl
    | some o => exact congrArg Metadata.paymentIntent (hmeta o)
  · rfl

theorem Db.recordedRef_guarded {key : String} {cur : OrderStatus}
    (h : db'.recordedRef id = db.recordedRef id) :
    (Op.guarded db key cur db').2.recordedRef id = db.recordedRef id := by
  unfold Op.guarded
  split
  · split
    · exact h
    · rfl
  · rfl

/-- A new order has no payment, as no order has none. -/
theorem Db.recordedRef_insertOrder {o : OrderRow} (hnew : o.metadata.paymentIntent = none) :
    (db.insertOrder o).2.recordedRef id = db.recordedRef id := by
  unfold insertOrder
  split
  · rfl
  · split
    · rename_i hnone
      simp only [recordedRef, order, Keyed.get_insert]
      split
      · rename_i hid
        rw [← hid, hnone]
        exact hnew
      · rfl
    · rfl

theorem ServiceOp.recordedRef {β : Type} {o : Op β} (h : ServiceOp o) :
    (o.exec w db).2.recordedRef id = db.recordedRef id := by
  cases o with
  | createOrder order => exact Db.recordedRef_insertOrder rfl
  | updateOrderStatus key cur next now =>
    exact Db.recordedRef_guarded (Db.recordedRef_update (.setStatus next now) (fun _ => rfl)
      (fun _ => rfl) rfl)
  | cancelOrder key cur canceledBy now =>
    exact Db.recordedRef_guarded (Db.recordedRef_update (.cancel canceledBy now) (fun _ => rfl)
      (fun _ => rfl) rfl)
  | payOrder key now =>
    exact Db.recordedRef_guarded (Db.recordedRef_update (.pay now) (fun _ => rfl) (fun _ => rfl) rfl)
  | setOrderChannelRefAndExpiry key ref expiresAt =>
    exact Db.recordedRef_update (.setChannelRefAndExpiry ref expiresAt) (fun _ => rfl) (fun _ => rfl) rfl
  | expireStaleOrders now limit =>
    exact Db.recordedRef_update (.cancel .expiry now) (fun _ => rfl) (fun _ => rfl) rfl
  | changeWorkspacePlan ws plan actor reason now =>
    simp only [Op.exec]
    split
    · split <;> exact Db.recordedRef_of_orders rfl
    · rfl
  | setWorkspaceSubscription ws ref expiresAt now =>
    simp only [Op.exec]
    split <;> exact Db.recordedRef_of_orders rfl
  | setWorkspaceCancelRequested ws now =>
    simp only [Op.exec]
    split <;> exact Db.recordedRef_of_orders rfl
  | insertOverageOrder order =>
    simp only [Op.exec]
    split
    · rfl
    · split
      · rfl
      · rename_i ws _ _
        have hrow : (newOrder w db order ws.createdBy ws.planCode order.metadata).metadata.paymentIntent
            = none := h.2
        have hins := @Db.recordedRef_insertOrder db id _ hrow
        split
        · rename_i created db' heq
          rwa [heq] at hins
        · rename_i err db' heq
          rwa [heq] at hins
  | registerChannelProductAtomic channel plan interval price syncedAt =>
    simp only [Op.exec]
    split
    · split <;> exact Db.recordedRef_of_orders rfl
    · rfl
  | reviveOrderAfterExpiry => exact h.elim
  | failOrder => exact h.elim
  | setOrderPaymentIntentRef => exact h.elim
  | insertPaymentEvent => exact h.elim
  | markEventProcessed => exact h.elim
  | markEventError => exact h.elim
  | _ => exact Db.recordedRef_of_orders rfl

/-- Requests other than webhooks record no payment. -/
theorem Db.recordedRef_service {α : Type} {m : Svc α} (h : m.Calls ServiceOp) :
    (m.run (Op.exec w) db).2.recordedRef id = db.recordedRef id := by
  have hpath : Path (Sound (Op.exec w)) m db _ _ := run_path (fun _ _ => rfl) m db
  refine Path.relates (R := fun db db' : Db => db'.recordedRef id = db.recordedRef id) (fun _ => rfl)
    (fun _ _ _ h h' => h'.trans h) (fun o s r s' ho hstep => ?_) h hpath
  have hexec := @ServiceOp.recordedRef s w id _ o ho
  rwa [show o.exec w s = (r, s') from hstep] at hexec

end

/-! ## Webhooks -/

namespace Db

variable {db db' : Db} {e : PaymentEvent} {now : Time} {id id' ref ws : String}
  {f : OrderRow → OrderRow} {g : Workspace → Workspace}

theorem Touches.recordedRef_kept (h : db.Touches db' id f ws g)
    (hf : ∀ o : OrderRow, (f o).metadata = o.metadata) : db'.recordedRef id' = db.recordedRef id' := by
  unfold recordedRef
  by_cases hid : id' = id
  · rw [hid, h.order]
    cases db.order id with
    | none => rfl
    | some o => exact congrArg Metadata.paymentIntent (hf o)
  · rw [h.orders id' hid]

theorem Touches.recordedRef_anchor (h : db.Touches db' id f ws g) {o : OrderRow}
    (ho : db.order id = some o) (hf : (f o).metadata = (o.anchor ref).metadata) :
    db'.recordedRef id' = if ref ≠ "" ∧ id = id' then some ref else db.recordedRef id' := by
  unfold recordedRef
  by_cases hid : id' = id
  · subst hid
    have hrow : (f o).metadata.paymentIntent = (o.anchor ref).metadata.paymentIntent :=
      congrArg Metadata.paymentIntent hf
    rw [h.order, ho, Option.map_some, Option.bind_some, hrow]
    unfold OrderRow.anchor
    split
    · rename_i href
      rw [if_pos ⟨href, rfl⟩]
      rfl
    · rename_i href
      rw [if_neg fun h => href h.1]
      rfl
  · rw [h.orders id' hid, if_neg fun h => hid h.2.symm]

theorem settle_metadata {o : OrderRow} : (o.settle now).metadata = o.metadata := by
  unfold OrderRow.settle
  split <;> rfl

theorem recordedRef_paidBy (htype : e.type = .checkoutCompleted) : (db.paidBy e now).recordedRef id
    = if db.recordedFor e = some id then some e.paymentIntentRef else db.recordedRef id := by
  unfold recordedFor
  rw [htype]
  cases hres : db.resolve e with
  | none =>
    have hpaid : db.paidBy e now = db := by simp only [paidBy, hres]
    rw [hpaid]
    simp
  | some o =>
    have ho := resolve_order hres
    simp only [Option.bind_some]
    by_cases hamount : amountMismatch (scanOrder o) e = false
    · have hcond : (if e.paymentIntentRef = "" then none
          else if amountMismatch (scanOrder o) e = true then none else some o.id) = some id ↔
          e.paymentIntentRef ≠ "" ∧ o.id = id := by
        by_cases href : e.paymentIntentRef = ""
        · simp [href]
        · simp [href, hamount]
      simp only [hcond]
      by_cases hpay : o.Payable
      · have hgrants : db.Grants e o := ⟨hres, hamount, hpay⟩
        exact hgrants.touches.recordedRef_anchor ho settle_metadata
      · exact (@touches_paidBy _ _ _ o.workspaceID _ hres hamount hpay).recordedRef_anchor ho rfl
    · have hmis : amountMismatch (scanOrder o) e = true := by simpa using hamount
      have hpaid : db.paidBy e now = db := by simp only [paidBy, hres, hmis, if_true]
      rw [hpaid]
      simp [hmis]

theorem recordedRef_renewedBy (htype : e.type = .subscriptionRenewed) :
    (db.renewedBy e now).recordedRef id
      = if db.recordedFor e = some id then some e.paymentIntentRef else db.recordedRef id := by
  -- The order is touched alike whether the renewal is refused or not.
  obtain ⟨ws, g, htouches⟩ : ∃ ws g, db.Touches (db.renewedBy e now) e.orderID
      (.anchor (if e.orderID ≠ "" then e.paymentIntentRef else "")) ws g := by
    by_cases hrefused : db.RefusesRenewal e
    · exact ⟨"", _, touches_renewedBy_refused (.inl hrefused)⟩
    · cases hfound : db.findWorkspaceBySubscription e.subscriptionRef with
      | none => exact ⟨"", _, touches_renewedBy_refused (.inr hfound)⟩
      | some row => exact ⟨row.id, _, touches_renewedBy hrefused hfound⟩
  unfold recordedFor
  rw [htype]
  cases ho : db.order e.orderID with
  | none =>
    have hkept : (db.renewedBy e now).recordedRef id = db.recordedRef id := by
      unfold recordedRef
      by_cases hid : id = e.orderID
      · rw [hid, htouches.order, ho]
        rfl
      · rw [htouches.orders id hid]
    rw [hkept]
    simp
  | some o =>
    have hkey : o.id = e.orderID := Keyed.key_of_get ho
    rw [htouches.recordedRef_anchor ho rfl]
    by_cases hid : e.orderID = ""
    · simp [hid]
    · by_cases href : e.paymentIntentRef = ""
      · simp [hid, href]
      · simp [hid, href, hkey]

theorem recordedRef_handled : (db.handled e now).recordedRef id
    = if db.recordedFor e = some id then some e.paymentIntentRef else db.recordedRef id := by
  unfold handled
  cases htype : e.type with
  | checkoutCompleted => exact recordedRef_paidBy htype
  | subscriptionRenewed => exact recordedRef_renewedBy htype
  | paymentFailed =>
    have hnone : db.recordedFor e = none := by simp [recordedFor, htype]
    rw [if_neg (by simp [hnone])]
    cases hres : db.resolve e with
    | none => simp only [failedBy, hres]
    | some o =>
      by_cases hpending : o.status = .pending
      · exact (@touches_failedBy _ _ "" _ hres hpending).recordedRef_kept fun _ => rfl
      · simp only [failedBy, hres, if_neg hpending]
  | refundCreated =>
    have hnone : db.recordedFor e = none := by simp [recordedFor, htype]
    rw [if_neg (by simp [hnone])]
    cases hres : db.resolve e with
    | none => simp only [refundedBy, hres]
    | some o =>
      by_cases hpaid : o.status = .paid
      · exact (touches_refundedBy hres hpaid).recordedRef_kept fun _ => rfl
      · simp only [refundedBy, hres, if_neg hpaid]
  | subscriptionCanceled =>
    have hnone : db.recordedFor e = none := by simp [recordedFor, htype]
    rw [if_neg (by simp [hnone])]
    cases hfound : db.findWorkspaceBySubscription e.subscriptionRef with
    | none => rw [canceledBy_none hfound]
    | some row => exact (@touches_canceledBy _ _ "" _ hfound).recordedRef_kept fun _ => rfl
  | other name =>
    have hnone : db.recordedFor e = none := by simp [recordedFor, htype]
    rw [if_neg (by simp [hnone])]

end Db

/-! ## Runs -/

/-- The payment that the request records, with the order it is recorded for. -/
def Request.records (rq : Request) (db : Db) : List (String × String) :=
  match rq.event with
  | none => []
  | some e => if db.Accepts e then
      ((db.recordedFor e).map fun id => (e.paymentIntentRef, id)).toList else []

/-- A run of requests that are served completely, and the payments it has recorded, the
latest first. -/
inductive Books (db₀ : Db) : List (String × String) → Db → Prop
  | start : Books db₀ [] db₀
  | serve {log : List (String × String)} {db : Db} (h : Books db₀ log db) (w : World) (rq : Request) :
      Books db₀ (rq.records db ++ log) (serve w rq db)

/-- The last payment in the log that is recorded for the order. -/
def lastPayment (log : List (String × String)) (id : String) : Option (String × String) :=
  log.find? fun r => r.2 = id

theorem Db.recordedRef_serve {db : Db} (hdb : db.Consistent) (w : World) (rq : Request) (id : String) :
    (serve w rq db).recordedRef id
      = ((lastPayment (rq.records db) id).map Prod.fst).or (db.recordedRef id) := by
  cases he : rq.event with
  | none =>
    have hcalls : rq.script.Calls ServiceOp := by
      refine rq.issues.mono fun o ho => ?_
      unfold Request.Issues at ho
      rwa [he] at ho
    have hnone : rq.records db = [] := by simp only [Request.records, he]
    rw [serve, Db.recordedRef_service hcalls, hnone]
    rfl
  | some e =>
    obtain ⟨now, hscript⟩ := Request.script_event he
    have hserve : serve w rq db = delivered w e now db := by rw [serve, hscript, delivered]
    simp only [Request.records, he, hserve]
    by_cases haccept : db.Accepts e
    · obtain ⟨events, hdeliv⟩ := @delivered_accepted w e now db hdb haccept
      have hevents : ((db.handled e now).withEvents events).recordedRef id
          = (db.handled e now).recordedRef id := rfl
      rw [hdeliv, hevents, Db.recordedRef_handled, if_pos haccept]
      cases hfor : db.recordedFor e with
      | none => simp [lastPayment]
      | some id' =>
        by_cases hid : id' = id <;> simp [lastPayment, hid]
    · rw [delivered_refused haccept, if_neg haccept]
      rfl

section

variable {db₀ db : Db} {log : List (String × String)}

theorem Books.consistent (h : Books db₀ log db) (h₀ : db₀.Consistent) : db.Consistent := by
  induction h with
  | start => exact h₀
  | serve _ w rq ih => exact (serves_serve w rq _).grows.consistent ih

/-- An order keeps the last payment that has been recorded for it. -/
theorem Books.recordedRef (h : Books db₀ log db) (h₀ : Installed db₀) (id : String) :
    db.recordedRef id = (lastPayment log id).map Prod.fst := by
  induction h with
  | start => simp [Db.recordedRef, Db.order, Keyed.get, Table.get, h₀.orders, lastPayment]
  | @serve log db h w rq ih =>
    rw [Db.recordedRef_serve (h.consistent h₀.consistent), ih, lastPayment, lastPayment, lastPayment,
      List.find?_append]
    cases (rq.records db).find? fun r => r.2 = id <;> rfl

/-- The payment with the reference is that of one order. -/
theorem Books.mem_log (h : Books db₀ log db) (h₀ : Installed db₀) {id ref : String}
    (href : db.recordedRef id = some ref) : lastPayment log id = some (ref, id) := by
  rw [h.recordedRef h₀] at href
  obtain ⟨⟨ref', id'⟩, hlast, hfst⟩ := Option.map_eq_some_iff.1 href
  have hfound := @List.find?_some _ (fun r : String × String => decide (r.2 = id)) _ log hlast
  have hid : id' = id := of_decide_eq_true hfound
  cases hid
  cases hfst
  exact hlast

/-- Where a payment reference is that of one order, a refund that names only a payment
resolves to the order that the payment has been recorded for exactly if no later
payment has been recorded for that order. -/
theorem refundable_iff (h₀ : Installed db₀) (h : Books db₀ log db)
    (hunique : ∀ r ∈ log, ∀ r' ∈ log, r.1 = r'.1 → r.2 = r'.2) {ref id : String} (hrec : (ref, id) ∈ log) (href : ref ≠ "")
    {e : PaymentEvent} (hid : e.orderID = "") (hsession : e.channelRef = "")
    (hpi : e.paymentIntentRef = ref) (w : World) :
    (∃ o, (resolveOrder e).run (Op.exec w) db = (.ok (some o), db) ∧ o.id = id) ↔
      lastPayment log id = some (ref, id) := by
  have hresolve : db.resolve e = db.findOrderByPaymentIntent ref := by
    have hne : ¬ ref = "" := href
    simp [Db.resolve, hid, hsession, Db.orderOfPayment, PaymentEvent.paymentRef, hpi, hne]
  -- Whatever order is found has the reference, and so is the one it was recorded for.
  have hfound : ∀ o, db.findOrderByPaymentIntent ref = some o →
      o.id = id ∧ lastPayment log id = some (ref, id) := by
    intro o ho
    have hmem := List.mem_filter.1 (Table.mem_of_first ho)
    have hrow : db.order o.id = some o := Keyed.get_of_mem hmem.1
    have hlast : lastPayment log o.id = some (ref, o.id) := by
      refine h.mem_log h₀ ?_
      rw [Db.recordedRef, hrow]
      exact of_decide_eq_true hmem.2
    have hid' : o.id = id := hunique _ (List.mem_of_find?_eq_some hlast) _ hrec rfl
    exact ⟨hid', hid' ▸ hlast⟩
  rw [run_resolveOrder, hresolve]
  constructor
  · rintro ⟨o, hrun, -⟩
    cases hfind : db.findOrderByPaymentIntent ref with
    | none =>
      rw [hfind] at hrun
      cases hrun
    | some o' => exact (hfound o' hfind).2
  · intro hlast
    have hslot : db.recordedRef id = some ref := by rw [h.recordedRef h₀, hlast]; rfl
    obtain ⟨o, ho, hrow⟩ := Option.bind_eq_some_iff.1 hslot
    cases hfind : db.findOrderByPaymentIntent ref with
    | none =>
      have hmem : o ∈ db.orders.rows.filter fun o => o.metadata.paymentIntent = some ref :=
        List.mem_filter.2 ⟨Keyed.mem_of_get ho, decide_eq_true hrow⟩
      rw [Table.first_eq_none.1 hfind] at hmem
      cases hmem
    | some o' => exact ⟨scanOrder o', rfl, (hfound o' hfind).1⟩

end

/-- The requests are served one after the other, and their payments written down. -/
def bookAll (w : World) (rqs : List Request) (db : Db) : List (String × String) × Db :=
  rqs.foldl (fun s rq => (rq.records s.2 ++ s.1, serve w rq s.2)) ([], db)

theorem books_bookAll (w : World) (rqs : List Request) (db₀ : Db) :
    Books db₀ (bookAll w rqs db₀).1 (bookAll w rqs db₀).2 := by
  have hfold : ∀ s : List (String × String) × Db, Books db₀ s.1 s.2 →
      Books db₀ (rqs.foldl (fun s rq => (rq.records s.2 ++ s.1, serve w rq s.2)) s).1
        (rqs.foldl (fun s rq => (rq.records s.2 ++ s.1, serve w rq s.2)) s).2 := by
    induction rqs with
    | nil => exact fun _ h => h
    | cons rq rqs ih => exact fun s h => ih _ (h.serve w rq)
  exact hfold ([], db₀) .start

/-- An order that is bought, paid and renewed. -/
def paidTwice : List (String × String) × Db :=
  bookAll (smallWorld 5) [.buy "w1" .monthly "paypal" 10,
    .ofEvent { channel := "paypal", channelEventID := "e1", type := .checkoutCompleted, orderID := "o1",
               subscriptionRef := "s1", paymentIntentRef := "p1", amountCents := 900 } 20,
    .ofEvent { channel := "paypal", channelEventID := "e2", type := .subscriptionRenewed, orderID := "o1",
               subscriptionRef := "s1", paymentIntentRef := "p2", amountCents := 900 } 30] (smallDb 0)

/-- The refund of a payment. -/
def refundOf (ref : String) : PaymentEvent where
  channel := "paypal"
  channelEventID := "e3"
  type := .refundCreated
  paymentIntentRef := ref

theorem refundable_iff_lastPayment : ∃ o,
    (resolveOrder (refundOf "p2")).run (Op.exec (smallWorld 5)) paidTwice.2 = (.ok (some o), paidTwice.2) ∧
      o.id = "o1" :=
  (refundable_iff (smallDb_installed 0) (books_bookAll _ _ _ : Books _ paidTwice.1 paidTwice.2)
    (by decide) (by decide : ("p2", "o1") ∈ paidTwice.1) (by decide) rfl rfl rfl _).2
    (by decide)

/-- The payment of the first period is found no more once the second one is paid. -/
theorem first_payment_lost : ∃ db₀ log db ref id e w, Installed db₀ ∧ Books db₀ log db ∧
    (∀ r ∈ log, ∀ r' ∈ log, r.1 = r'.1 → r.2 = r'.2) ∧ (ref, id) ∈ log ∧ ref ≠ "" ∧
    e.type = .refundCreated ∧ e.orderID = "" ∧ e.channelRef = "" ∧ e.paymentIntentRef = ref ∧
      ¬ ∃ o, (resolveOrder e).run (Op.exec w) db = (.ok (some o), db) ∧ o.id = id := by
  refine ⟨_, paidTwice.1, paidTwice.2, "p1", "o1", refundOf "p1", smallWorld 5, smallDb_installed 0,
    books_bookAll _ _ _, by decide, by decide, by decide, rfl, rfl, rfl, rfl, ?_⟩
  rintro ⟨o, hrun, -⟩
  have hnone : (paidTwice.2.resolve (refundOf "p1")).isNone := by decide
  rw [run_resolveOrder, Option.isNone_iff_eq_none.1 hnone] at hrun
  cases hrun

end Ploykit.Billing

import Ploykit.Billing.Delivery
import Ploykit.Billing.Rows
import Ploykit.Billing.Renewals

/-!
# Retries

A handler that fails is run again from its beginning when the event is delivered
again. Where it has written something before it failed, it must come to the same
end from there: `Db.Toward` says that the state on the way is as good as the one
before the handler.
-/

namespace Ploykit.Billing

open Lib Script

/-! ## Outcomes -/

/-- The statuses of orders and the workspaces agree. -/
structure Db.SameOutcome (db db' : Db) : Prop where
  status : ∀ id, (db'.order id).map OrderRow.status = (db.order id).map OrderRow.status
  workspace : ∀ ws, db'.workspace ws = db.workspace ws

/-- From the state the handler comes to the same end, and it has not marked the event. -/
structure Db.Toward (e : PaymentEvent) (db s : Db) : Prop where
  outcome : ∀ t, (db.handled e t).SameOutcome (s.handled e t)
  events : s.paymentEvents = db.paymentEvents

namespace Db

variable {e : PaymentEvent} {db s s' : Db} {t : Time} {id ref ws : String}

theorem SameOutcome.refl (db : Db) : db.SameOutcome db := ⟨fun _ => rfl, fun _ => rfl⟩

theorem SameOutcome.symm (h : db.SameOutcome s) : s.SameOutcome db :=
  ⟨fun id => (h.status id).symm, fun ws => (h.workspace ws).symm⟩

theorem SameOutcome.trans (h : db.SameOutcome s) (h' : s.SameOutcome s') : db.SameOutcome s' :=
  ⟨fun id => (h'.status id).trans (h.status id), fun ws => (h'.workspace ws).trans (h.workspace ws)⟩

theorem Toward.refl (e : PaymentEvent) (db : Db) : db.Toward e db := ⟨fun _ => .refl _, rfl⟩

theorem Toward.trans (h : db.Toward e s) (h' : s.Toward e s') : db.Toward e s' :=
  ⟨fun t => (h.outcome t).trans (h'.outcome t), h'.events.trans h.events⟩

theorem sameOutcome_withEvents {events : Keyed PaymentEventRow.key} :
    db.SameOutcome (db.withEvents events) := ⟨fun _ => rfl, fun _ => rfl⟩

theorem sameOutcome_markEvent {k : String × String} {st : ProcessStatus} {err : Option String} :
    db.SameOutcome (db.markEvent k st err) := ⟨fun _ => rfl, fun _ => rfl⟩

/-- The payment reference of an order is no part of an outcome. -/
theorem sameOutcome_anchor : db.SameOutcome (db.anchor id ref) := by
  refine ⟨fun id' => ?_, fun ws => workspace_anchor⟩
  rcases @order_anchor_cases db id ref id' with h | ⟨o, ho, h⟩
  · rw [h]
  · rw [h, ho]
    rfl

/-- A change of one order and one workspace that keeps the order's status. -/
theorem Touches.sameOutcome {f : OrderRow → OrderRow} (h : db.Touches s id f ws fun w => w)
    (hf : ∀ o, (f o).status = o.status) : db.SameOutcome s := by
  refine ⟨fun id' => ?_, fun ws' => ?_⟩
  · by_cases hid : id' = id
    · rw [hid, h.order, Option.map_map]
      exact Option.map_congr fun o _ => hf o
    · rw [h.orders _ hid]
  · by_cases hws : ws' = ws
    · rw [hws, h.workspace, Option.map_id']
    · exact h.workspaces _ hws

end Db

/-! ## Failures -/

/-- The calls that may fail, where the delivery of the event is to be made up for by
the next one. A refund is not taken up again once the order is refunded, nor a
cancellation once the subscription is gone; and a plan that cannot be read is taken
for one without a trial. -/
def PaymentEvent.Spares (e : PaymentEvent) : {β : Type} → Op β → Db → Prop
  | _, .markEventError .., _ => False
  | _, .changeWorkspacePlan .., _ => e.type ≠ .refundCreated
  | _, .setWorkspaceSubscription .., _ => e.type ≠ .refundCreated
  | _, .clearWorkspaceCancelRequested .., _ => e.type ≠ .refundCreated ∧ e.type ≠ .subscriptionCanceled
  | _, .getPlan code, db => e.type = .checkoutCompleted → db.trialDays code ≤ 0
  | _, _, _ => True

/-- What is left of a handler when a call fails: to record the error, in a state from
which the handler comes to the same end, or nothing. -/
def Stops (e : PaymentEvent) (db : Db) (n : Svc (Except Err Unit)) (s : Db) : Prop :=
  (∃ err, n = failEvent e err ∧ db.Toward e s) ∨
    ∃ err, n = ret (.error err) ∧ s.paymentEvents = db.paymentEvents

/-- Where a call fails, the script stops like that. -/
abbrev Retries (w : World) (e : PaymentEvent) (db : Db) (m : Svc (Except Err Unit)) (s : Db) : Prop :=
  FailsFast (Op.exec w) (Op.fails e.Spares) (Stops e db) m s

section

variable {w : World} {e : PaymentEvent} {db s s' : Db} {t : Time} {id ref : String} {α : Type}

theorem retries_orFail {o : Op (Except Err α)} {k : α → Svc (Except Err Unit)} {a : α}
    (hfailed : ∀ err, o.failed err = .error err) (hexec : o.exec w s = (.ok a, s'))
    (hs : e.Spares o s → db.Toward e s) (hk : Retries w e db (k a) s') :
    Retries w e db (.call o fun r => orFail e r k) s := by
  refine .call hexec (fun r hr => ?_) hk
  obtain ⟨hmay, msg, rfl⟩ := hr
  rw [hfailed]
  exact .inl ⟨_, rfl, hs hmay⟩

theorem retries_processed (hs : s.paymentEvents = db.paymentEvents) :
    Retries w e db (processed e) s := by
  refine .call rfl (fun r hr => ?_) trivial
  obtain ⟨-, msg, rfl⟩ := hr
  exact .inr ⟨_, rfl, hs⟩

theorem retries_clearCancel {ws : String} (hs : s.paymentEvents = db.paymentEvents)
    (hclear : e.Spares (.clearWorkspaceCancelRequested ws) s → db.Toward e s) :
    Retries w e db (clearCancel e ws) s :=
  retries_orFail (fun _ => rfl) rfl hclear (retries_processed hs)

/-- The reads of `resolveOrder` fail fast. -/
theorem failsFast_resolveOrder {may : {β : Type} → Op β → Db → Prop}
    {stop : Svc (Except Err (Option Order)) → Db → Prop} (hstop : ∀ err, stop (ret (.error err)) s) :
    FailsFast (Op.exec w) (Op.fails may) stop (resolveOrder e) s := by
  have hpi : ∀ pi, FailsFast (Op.exec w) (Op.fails may) stop
      (if pi ≠ "" then op (.findOrderByPaymentIntent pi) else ret (.ok none)) s := by
    refine fun pi => .ite (fun _ => ⟨?_, trivial⟩) fun _ => trivial
    rintro r ⟨-, msg, rfl⟩
    exact .inl (hstop _)
  refine .ite (fun _ => ?_) fun _ => .ite (fun _ => ?_) fun _ => hpi _
  · refine ⟨?_, trivial⟩
    rintro r ⟨-, msg, rfl⟩
    exact .inl (hstop _)
  · refine ⟨?_, ?_⟩
    · rintro r ⟨-, msg, rfl⟩
      exact .inl (hstop _)
    · simp only [Op.exec]
      cases s.findOrderByChannelRef e.channel e.channelRef with
      | none => exact hpi _
      | some o => trivial

theorem retries_resolveOrder {k : Option Order → Svc (Except Err Unit)} (hs : db.Toward e s)
    (hk : Retries w e db (k ((s.resolve e).map scanOrder)) s) :
    Retries w e db ((resolveOrder e).bind fun r => orFail e r k) s := by
  refine .bind (failsFast_resolveOrder fun err => .inl ⟨err, rfl, hs⟩) ?_
  rw [run_resolveOrder]
  exact hk

theorem retries_handleFailed : Retries w e db (handleFailed e t) db := by
  refine retries_resolveOrder (.refl e db) ?_
  cases db.resolve e with
  | none => exact retries_processed rfl
  | some o =>
    refine ⟨fun r hr => ?_, ?_⟩
    · obtain ⟨-, msg, rfl⟩ := hr
      exact .inl (.inl ⟨_, rfl, .refl e db⟩)
    · simp only [Op.exec, Op.guarded]
      split
      · split
        · trivial
        · exact retries_processed rfl
      · exact retries_processed rfl

/-! ### Refunds -/

/-- None of the calls that take something back may fail. -/
theorem retries_revoke (htype : e.type = .refundCreated) {o : OrderRow} {row : Workspace}
    (hws : s.workspace o.workspaceID = some row) (hfree : (s.plan "free").isSome)
    (hs : s.paymentEvents = db.paymentEvents) : Retries w e db (revoke e (scanOrder o) t) s := by
  have hspared : ¬ e.type ≠ .refundCreated := not_not.2 htype
  have hmove := @Op.exec_changeWorkspacePlan w t s o.workspaceID "free" ("webhook:" ++ e.channel)
    ("refund:" ++ o.id) row hws hfree
  refine retries_orFail (fun _ => rfl) hmove (fun h => absurd h hspared) (.ite (fun _ => ?_) fun _ => ?_)
  · have hsome : ((s.movePlan o.workspaceID (.setPlan "free") (fun _ => Workspace.setPlan_id) "free"
        ("webhook:" ++ e.channel) ("refund:" ++ o.id)).workspace o.workspaceID).isSome := by
      simp [hws]
    refine retries_orFail (fun _ => rfl) (Op.exec_setWorkspaceSubscription hsome) (fun h => absurd h hspared) ?_
    exact retries_clearCancel hs fun h => absurd h.1 hspared
  · exact retries_processed hs

theorem retries_handleRefund (htype : e.type = .refundCreated) (hdb : db.Consistent) :
    Retries w e db (handleRefund e t) db := by
  refine retries_resolveOrder (.refl e db) ?_
  cases hres : db.resolve e with
  | none => exact retries_processed rfl
  | some o =>
    have ho := Db.resolve_order hres
    obtain ⟨row, hws⟩ := Option.isSome_iff_exists.1 (hdb.orderWorkspace _ _ ho)
    have hfails : ∀ (updated : Except Err Unit → Svc (Except Err Unit)),
        (∀ msg, updated (.error (.text msg)) = failEvent e (.text msg)) →
        ∀ r, Op.fails e.Spares (.updateOrderStatus o.id .paid .refunded t) db r → Stops e db (updated r) db := by
      rintro updated hfailed r ⟨-, msg, rfl⟩
      exact .inl ⟨_, hfailed msg, .refl e db⟩
    by_cases hpaid : o.status = .paid
    · have hexec := @Op.exec_updateOrderStatus w t db o.id o .refunded ho
      rw [hpaid] at hexec
      exact .call hexec (hfails _ fun _ => rfl) (@retries_revoke w e db _ t htype o row hws hdb.free rfl)
    · exact .call (Op.exec_updateOrderStatus_conflict ho hpaid) (hfails _ fun _ => rfl) (retries_processed rfl)

/-! ### Cancellations -/

/-- A workspace that is on the free plan already is found by its subscription still. -/
theorem Db.toward_downgrade (htype : e.type = .subscriptionCanceled) {row : Workspace}
    {actor reason : String} (hfound : db.findWorkspaceBySubscription e.subscriptionRef = some row) :
    db.Toward e (db.movePlan row.id (.setPlan "free") (fun _ => Workspace.setPlan_id) "free" actor
      reason) := by
  refine ⟨fun t => ?_, rfl⟩
  have hfind := @Keyed.find_update _ _ _ _ db.workspaces [row.id] (.setPlan "free")
    (fun _ => Workspace.setPlan_id) (fun w => w.subscriptionRef.map Subtype.val = some e.subscriptionRef)
    fun _ _ _ => rfl
  have hfound' : (db.movePlan row.id (.setPlan "free") (fun _ => Workspace.setPlan_id) "free" actor
      reason).findWorkspaceBySubscription e.subscriptionRef = some (row.setPlan "free") := by
    refine hfind.trans ?_
    rw [show db.workspaces.find _ = some row from hfound]
    simp
  have hhandled : ∀ s : Db, s.handled e t = s.canceledBy e := by
    intro s
    simp only [handled, htype]
  rw [hhandled, hhandled]
  have htouches := @touches_canceledBy _ _ "" _ hfound
  have htouches' := @touches_canceledBy _ _ "" _ hfound'
  refine ⟨fun id => ?_, fun ws => ?_⟩
  · simp only [canceledBy, hfound, hfound']
    rfl
  · by_cases hws : ws = row.id
    · subst hws
      rw [htouches.workspace, (workspace_of_subscription hfound).1]
      exact htouches'.workspace.trans (by rw [(workspace_of_subscription hfound').1]; rfl)
    · rw [htouches.workspaces ws hws]
      exact (htouches'.workspaces ws hws).trans (workspace_movePlan_ne hws)

theorem retries_handleCanceled (htype : e.type = .subscriptionCanceled) (hdb : db.Consistent) :
    Retries w e db (handleCanceled e t) db := by
  refine retries_orFail (fun _ => rfl) Op.exec_findWorkspaceBySubscription (fun _ => .refl e db) ?_
  cases hfound : db.findWorkspaceBySubscription e.subscriptionRef with
  | none => exact retries_processed rfl
  | some row =>
    obtain ⟨hws, -⟩ := Db.workspace_of_subscription hfound
    have hmove := @Op.exec_changeWorkspacePlan w t db row.id "free" ("webhook:" ++ e.channel)
      ("subscription:" ++ e.subscriptionRef) row hws hdb.free
    have hsome : ((db.movePlan row.id (.setPlan "free") (fun _ => Workspace.setPlan_id) "free"
        ("webhook:" ++ e.channel) ("subscription:" ++ e.subscriptionRef)).workspace row.id).isSome := by
      simp [hws]
    refine retries_orFail (fun _ => rfl) hmove (fun _ => .refl e db) ?_
    refine retries_orFail (fun _ => rfl) (Op.exec_setWorkspaceSubscription hsome)
      (fun _ => Db.toward_downgrade htype hfound) ?_
    exact retries_clearCancel rfl fun h => absurd htype h.2

/-! ### Renewals -/

namespace Db

theorem refusesRenewal_anchor : (db.anchor id ref).RefusesRenewal e ↔ db.RefusesRenewal e := by
  unfold RefusesRenewal
  rw [renewalAmountMismatch_anchor]

theorem status_renewedBy (id : String) :
    ((db.renewedBy e t).order id).map OrderRow.status = (db.order id).map OrderRow.status := by
  have hanchor : ((db.anchor e.orderID e.paymentIntentRef).order id).map OrderRow.status
      = (db.order id).map OrderRow.status := sameOutcome_anchor.status id
  unfold renewedBy
  split
  · split
    · exact hanchor
    · rw [order_extendedBy, hanchor]
  · rw [order_extendedBy]

/-- A renewal comes to the same end where it finds the same statuses and leaves the
same workspaces. -/
theorem Toward.of_renewedBy (htype : e.type = .subscriptionRenewed)
    (hstatus : ∀ id, (s.order id).map OrderRow.status = (db.order id).map OrderRow.status)
    (hws : ∀ t ws, (s.renewedBy e t).workspace ws = (db.renewedBy e t).workspace ws)
    (hevents : s.paymentEvents = db.paymentEvents) : db.Toward e s := by
  have hhandled : ∀ (db : Db) t, db.handled e t = db.renewedBy e t := by
    intro db t
    simp only [handled, htype]
  refine ⟨fun t => ⟨fun id => ?_, fun ws => ?_⟩, hevents⟩
  · rw [hhandled, hhandled, status_renewedBy, status_renewedBy, hstatus]
  · rw [hhandled, hhandled, hws]

theorem toward_anchor (htype : e.type = .subscriptionRenewed) : db.Toward e (db.anchor id ref) := by
  refine .of_renewedBy htype sameOutcome_anchor.status (fun t ws => ?_) ?_
  · rw [workspace_renewedBy, workspace_renewedBy, workspace_extendedBy_anchor, workspace_anchor,
      if_congr refusesRenewal_anchor rfl rfl]
  · unfold anchor
    split <;> rfl

/-- The period that is set a second time replaces the one that was set the first time. -/
theorem toward_setSubscription (htype : e.type = .subscriptionRenewed) {row : Workspace} {x : Time}
    (hamount : ¬ db.RefusesRenewal e)
    (hfound : db.findWorkspaceBySubscription e.subscriptionRef = some row) :
    db.Toward e (db.setSubscription row.id e.subscriptionRef x) := by
  obtain ⟨hws, hsub⟩ := workspace_of_subscription hfound
  have href : e.subscriptionRef ≠ "" := by
    obtain ⟨sub, -, href⟩ := Option.map_eq_some_iff.1 hsub
    exact href ▸ sub.2
  have hfind := @Keyed.find_update _ _ _ _ db.workspaces [row.id]
    (.setSubscription e.subscriptionRef x) (fun _ => Workspace.setSubscription_id)
    (fun w => w.subscriptionRef.map Subtype.val = some e.subscriptionRef) fun a ha hid => by
      have hget : db.workspace a.id = some a := Keyed.get_of_mem ha
      rw [List.mem_singleton.1 hid, hws] at hget
      cases hget
      simp [Workspace.setSubscription, nullif, href, hsub]
  have hfound' : (db.setSubscription row.id e.subscriptionRef x).findWorkspaceBySubscription
      e.subscriptionRef = some (row.setSubscription e.subscriptionRef x) := by
    refine hfind.trans ?_
    rw [show db.workspaces.find _ = some row from hfound]
    simp
  have hamount' : ¬ (db.setSubscription row.id e.subscriptionRef x).RefusesRenewal e := hamount
  refine .of_renewedBy htype (fun _ => rfl) (fun t ws => ?_) rfl
  rw [workspace_renewedBy, workspace_renewedBy, if_neg hamount, if_neg hamount']
  by_cases hid : ws = row.id
  · subst hid
    have hagain := @workspace_extendedBy _ e t _ hfound'
    rw [workspace_extendedBy hfound]
    exact hagain
  · rw [workspace_extendedBy_ne hfound hid]
    exact (workspace_extendedBy_ne hfound' hid).trans (workspace_setSubscription_ne hid)

end Db

theorem retries_restorePlan (hs : db.Toward e s) (hcons : s.Consistent) {row : Workspace} {plan : String}
    (hws : s.workspace row.id = some row) : Retries w e db (restorePlan e row.id plan t) s := by
  refine .ite (fun _ => ?_) fun _ => retries_processed hs.events
  refine retries_orFail (fun _ => rfl) Op.exec_getOrder (fun _ => hs) ?_
  cases ho : s.order e.orderID with
  | none => exact retries_processed hs.events
  | some o =>
    refine .ite (fun _ => ?_) fun _ => retries_processed hs.events
    exact retries_orFail (fun _ => rfl) (Op.exec_changeWorkspacePlan hws (hcons.orderPlan _ _ ho))
      (fun _ => hs) (retries_processed hs.events)

theorem retries_extend (htype : e.type = .subscriptionRenewed) (hs : db.Toward e s)
    (hcons : s.Consistent) (hamount : ¬ s.RefusesRenewal e) : Retries w e db (extend e t) s := by
  refine retries_orFail (fun _ => rfl) Op.exec_findWorkspaceBySubscription (fun _ => hs) ?_
  cases hfound : s.findWorkspaceBySubscription e.subscriptionRef with
  | none => exact retries_processed hs.events
  | some row =>
    obtain ⟨hws, -⟩ := Db.workspace_of_subscription hfound
    have hsome : (s.workspace row.id).isSome := by simp [hws]
    refine retries_orFail (fun _ => rfl) Op.exec_getWorkspaceCancelRequested (fun _ => hs) ?_
    refine retries_orFail (fun _ => rfl) Op.exec_latestPaidOrderInterval (fun _ => hs) ?_
    have hset := @Op.exec_setWorkspaceSubscription w t s row.id e.subscriptionRef
      (s.renewalExpiry row.id t) hsome
    refine retries_orFail (fun _ => rfl) hset (fun _ => hs) ?_
    have hgrows : s.Grows (s.setSubscription row.id e.subscriptionRef (s.renewalExpiry row.id t)) :=
      .of_updateWorkspaces (.setSubscription e.subscriptionRef (s.renewalExpiry row.id t))
        (fun _ => Workspace.setSubscription_id) rfl rfl (fun _ => .inl rfl) rfl
    have hrow : (s.setSubscription row.id e.subscriptionRef (s.renewalExpiry row.id t)).workspace row.id
        = some (row.setSubscription e.subscriptionRef (s.renewalExpiry row.id t)) := by simp [hws]
    exact @retries_restorePlan w e db _ t (hs.trans (Db.toward_setSubscription htype hamount hfound))
      (hgrows.consistent hcons) (row.setSubscription e.subscriptionRef (s.renewalExpiry row.id t)) _ hrow

/-- The reads of `renewalAmountMismatch` end in an error that is recorded. -/
theorem retries_renewalAmountMismatch {k : Bool → Svc (Except Err Unit)} (hs : db.Toward e s)
    (hk : Retries w e db (k (s.renewalAmountMismatch e)) s) :
    Retries w e db ((renewalAmountMismatch e).bind fun r => orFail e r k) s := by
  have hstop : ∀ err : Err, Stops e db ((ret (.error err)).bind fun r => orFail e r k) s :=
    fun err => .inl ⟨err, rfl, hs⟩
  refine .bind ?_ ?_
  · unfold renewalAmountMismatch
    refine .ite (fun _ => trivial) fun _ => ⟨?_, ?_⟩
    · rintro r ⟨-, msg, rfl⟩
      exact .inl (hstop _)
    · simp only [Op.exec]
      cases s.order e.orderID with
      | none => trivial
      | some o =>
        refine ⟨?_, ?_⟩
        · rintro r ⟨-, msg, rfl⟩
          exact .inl (hstop _)
        · simp only [Op.exec]
          cases s.plan (scanOrder o).planCode with
          | none => trivial
          | some plan => exact .ite (fun _ => trivial) fun _ => trivial
  · rw [run_renewalAmountMismatch]
    exact hk

theorem retries_handleRenewed (htype : e.type = .subscriptionRenewed) (hdb : db.Consistent) :
    Retries w e db (handleRenewed e t) db := by
  have hreconcile : ∀ s : Db, db.Toward e s → s.Consistent → Retries w e db (reconcile e t) s := by
    intro s hs hcons
    refine retries_renewalAmountMismatch hs (.ite (fun _ => retries_processed hs.events) fun hmis => ?_)
    exact retries_extend htype hs hcons fun h => hmis h.2
  refine .ite (fun hid => .ite (fun hpi => ?_) fun _ => ?_) fun hid => ?_
  · refine retries_orFail (fun _ => rfl) Op.exec_setOrderPaymentIntentRef (fun _ => .refl e db) ?_
    have hanchor : db.setPaymentIntent e.orderID e.paymentIntentRef
        = db.anchor e.orderID e.paymentIntentRef := (if_pos hpi).symm
    rw [hanchor]
    exact hreconcile _ (Db.toward_anchor htype) hdb.anchor
  · exact hreconcile _ (.refl e db) hdb
  · exact retries_extend htype (.refl e db) hdb fun h => hid h.1

/-! ### Payments -/

/-- An event that finds an order finds it when the order is changed in what is not
looked for. -/
theorem Db.resolve_updateOrder {o : OrderRow} {f : OrderRow → OrderRow} {hf : ∀ o, (f o).id = o.id}
    (hres : db.resolve e = some o) (hchannel : ∀ o, (f o).channel = o.channel)
    (href : ∀ o, (f o).channelRef = o.channelRef) (hcreated : ∀ o, (f o).createdAt = o.createdAt)
    (hpi : o.metadata.paymentIntent = some e.paymentRef →
      (f o).metadata.paymentIntent = some e.paymentRef) :
    (db.updateOrder o.id f hf).resolve e = some (f o) := by
  have hself : ∀ a ∈ db.orders.rows, a.id ∈ [o.id] → a = o := by
    intro a ha hid
    have hget : db.order a.id = some a := Keyed.get_of_mem ha
    rw [List.mem_singleton.1 hid, resolve_order hres, Option.some.injEq] at hget
    exact hget.symm
  have hpayment : db.orderOfPayment e.paymentRef = some o →
      (db.updateOrder o.id f hf).orderOfPayment e.paymentRef = some (f o) := by
    intro hfound
    unfold orderOfPayment at hfound ⊢
    split at hfound
    case isFalse => cases hfound
    rename_i hne
    have hpaid : o.metadata.paymentIntent = some e.paymentRef :=
      of_decide_eq_true (List.mem_filter.1 (Table.mem_of_first hfound)).2
    have hfirst := @Keyed.first_update _ _ OrderRow.id _ db.orders [o.id] f hf
      (fun o => o.metadata.paymentIntent = some e.paymentRef) OrderRow.newer
      (fun a ha hid => by
        rw [hself a ha hid, decide_eq_true hpaid, decide_eq_true (hpi hpaid)])
      fun a b => by simp only [OrderRow.newer, hcreated, and_self]
    rw [if_pos hne]
    refine hfirst.trans ?_
    rw [show Table.first _ _ = some o from hfound]
    simp
  have hscan := @Keyed.find_update _ _ OrderRow.id _ db.orders [o.id] f hf
    (fun o => o.channel = e.channel ∧ o.channelRef = e.channelRef) fun a _ _ => by
      simp only [hchannel, href]
  unfold resolve at hres ⊢
  split at hres
  · rw [if_pos ‹_›, show e.orderID = o.id from (Keyed.key_of_get hres).symm, order_updateOrder hf,
      show o.id = e.orderID from Keyed.key_of_get hres, hres]
    rfl
  · rw [if_neg ‹_›]
    split at hres
    · rw [if_pos ‹_›, show (db.updateOrder o.id f hf).findOrderByChannelRef _ _ = _ from hscan]
      rcases Option.or_eq_some_iff.1 hres with h | ⟨hnone, h⟩
      · rw [show db.orders.find _ = some o from h]
        simp
      · rw [show db.orders.find _ = none from hnone]
        exact hpayment h
    · rw [if_neg ‹_›]
      exact hpayment hres

theorem Db.resolve_anchor {o : OrderRow} (hres : db.resolve e = some o) :
    (db.anchor o.id e.paymentIntentRef).resolve e = some (o.anchor e.paymentIntentRef) := by
  unfold Db.anchor OrderRow.anchor
  split
  · rename_i hne
    have href : e.paymentRef = e.paymentIntentRef := if_neg hne
    exact Db.resolve_updateOrder hres (fun _ => rfl) (fun _ => rfl) (fun _ => rfl) fun _ => by
      rw [href]
      rfl
  · exact hres

theorem OrderRow.sameSale_anchor {o : OrderRow} : o.SameSale (o.anchor ref) := by
  unfold OrderRow.anchor
  split <;> exact ⟨rfl, rfl, rfl, rfl, rfl, rfl⟩

theorem OrderRow.payable_anchor {o : OrderRow} : (o.anchor ref).Payable ↔ o.Payable := by
  unfold OrderRow.anchor
  split <;> rfl

theorem OrderRow.sameSale_settle {o : OrderRow} : o.SameSale (o.settle t) := by
  unfold OrderRow.settle
  split <;> exact ⟨rfl, rfl, rfl, rfl, rfl, rfl⟩

theorem OrderRow.SameSale.amountMismatch {o o' : OrderRow} (h : o.SameSale o') :
    amountMismatch (scanOrder o') e = amountMismatch (scanOrder o) e := by
  have hamount : (scanOrder o').amountCents = (scanOrder o).amountCents := h.amountCents
  have hcurrency : (scanOrder o').currency = (scanOrder o).currency := h.currency
  unfold Billing.amountMismatch
  rw [hamount, hcurrency]
  rfl

/-- The order is being paid: what the payment has written already, it would write again. -/
structure Db.Pays (e : PaymentEvent) (o : OrderRow) (db s : Db) (cur : OrderRow) : Prop where
  grants : s.Grants e cur
  id : cur.id = o.id
  sale : o.SameSale cur
  orders : ∀ id, id ≠ o.id → (s.order id).map OrderRow.status = (db.order id).map OrderRow.status
  workspace : ∀ t, (s.workspace o.workspaceID).map (Workspace.grant o.planCode e.subscriptionRef t)
    = (db.workspace o.workspaceID).map (Workspace.grant o.planCode e.subscriptionRef t)
  workspaces : ∀ ws, ws ≠ o.workspaceID → s.workspace ws = db.workspace ws
  plans : s.plans = db.plans
  events : s.paymentEvents = db.paymentEvents

namespace Db.Pays

variable {o cur : OrderRow}

/-- From where the order is being paid, the handler pays it. -/
theorem toward (htype : e.type = .checkoutCompleted) (hgrants : db.Grants e o)
    (h : db.Pays e o s cur) : db.Toward e s := by
  have hhandled : ∀ (db : Db) t, db.handled e t = db.paidBy e t := by
    intro db t
    simp only [handled, htype]
  have hpaid : ∀ {o : OrderRow}, o.Payable → ∀ t,
      ((o.anchor e.paymentIntentRef).settle t).status = .paid := fun hpay t =>
    OrderRow.settle_status (OrderRow.payable_anchor.2 hpay)
  refine ⟨fun t => ?_, h.events⟩
  have htouches := @Db.Grants.touches _ _ t _ hgrants
  have htouches' := @Db.Grants.touches _ _ t _ h.grants
  rw [h.id, h.sale.workspaceID, h.sale.planCode] at htouches'
  have hexpiry : s.subscriptionExpiry cur t = db.subscriptionExpiry o t := by
    simp only [subscriptionExpiry, trialDays, plan, h.sale.interval, h.sale.planCode, h.plans]
  rw [hhandled, hhandled]
  refine ⟨fun id => ?_, fun ws => ?_⟩
  · by_cases hid : id = o.id
    · have hcur : s.order o.id = some cur := h.id ▸ resolve_order h.grants.resolves
      rw [hid, htouches.order, htouches'.order, resolve_order hgrants.resolves, hcur,
        Option.map_some, Option.map_some, Option.map_some, Option.map_some, hpaid hgrants.payable,
        hpaid h.grants.payable]
    · rw [htouches.orders id hid, htouches'.orders id hid, h.orders id hid]
  · by_cases hws : ws = o.workspaceID
    · rw [hws, htouches.workspace, htouches'.workspace, hexpiry, h.workspace]
    · rw [htouches.workspaces ws hws, htouches'.workspaces ws hws, h.workspaces ws hws]

theorem updateWorkspace (h : db.Pays e o s cur) {g : Workspace → Workspace} {hg : ∀ w, (g w).id = w.id}
    (habsorb : ∀ t row, (g row).grant o.planCode e.subscriptionRef t
      = row.grant o.planCode e.subscriptionRef t) :
    db.Pays e o (s.updateWorkspace o.workspaceID g hg) cur where
  grants := ⟨h.grants.resolves, h.grants.amount, h.grants.payable⟩
  id := h.id
  sale := h.sale
  orders := h.orders
  workspace t := by
    rw [workspace_updateWorkspace, Option.map_map, ← h.workspace t]
    exact Option.map_congr fun row _ => habsorb t row
  workspaces ws hws := (Keyed.get_update_ne hg hws).trans (h.workspaces ws hws)
  plans := h.plans
  events := h.events

theorem record (h : db.Pays e o s cur) {ev : SubscriptionEvent} : db.Pays e o (s.record ev) cur :=
  ⟨⟨h.grants.resolves, h.grants.amount, h.grants.payable⟩, h.id, h.sale, h.orders, h.workspace,
    h.workspaces, h.plans, h.events⟩

theorem anchor (hgrants : db.Grants e o) :
    db.Pays e o (db.anchor o.id e.paymentIntentRef) (o.anchor e.paymentIntentRef) where
  grants := ⟨resolve_anchor hgrants.resolves,
    OrderRow.sameSale_anchor.amountMismatch.trans hgrants.amount,
    OrderRow.payable_anchor.2 hgrants.payable⟩
  id := by
    unfold OrderRow.anchor
    split <;> rfl
  sale := OrderRow.sameSale_anchor
  orders id _ := sameOutcome_anchor.status id
  workspace t := by rw [workspace_anchor]
  workspaces ws _ := workspace_anchor
  plans := by
    unfold Db.anchor
    split <;> rfl
  events := by
    unfold Db.anchor
    split <;> rfl

theorem settle (h : db.Pays e o s cur) :
    db.Pays e o (s.updateOrder o.id (.settle t) fun _ => OrderRow.settle_id) (cur.settle t) where
  grants := by
    have hres := @Db.resolve_updateOrder e s _ (.settle t) (fun _ => OrderRow.settle_id)
      h.grants.resolves (fun o => by unfold OrderRow.settle; split <;> rfl)
      (fun o => by unfold OrderRow.settle; split <;> rfl)
      (fun o => by unfold OrderRow.settle; split <;> rfl)
      fun hpi => by
        unfold OrderRow.settle
        split <;> exact hpi
    rw [h.id] at hres
    exact ⟨hres, OrderRow.sameSale_settle.amountMismatch.trans h.grants.amount,
      .inr (.inl (OrderRow.settle_status h.grants.payable))⟩
  id := OrderRow.settle_id.trans h.id
  sale := h.sale.trans OrderRow.sameSale_settle
  orders id hid := by
    rw [order_updateOrder_ne (fun _ => OrderRow.settle_id) hid]
    exact h.orders id hid
  workspace := h.workspace
  workspaces := h.workspaces
  plans := h.plans
  events := h.events

end Db.Pays

section

variable {o cur : OrderRow}

/-- A plan without a trial may be unreadable. -/
theorem failsFast_subscriptionExpiry {stop : Svc Time → Db → Prop} (htype : e.type = .checkoutCompleted) :
    FailsFast (Op.exec w) (Op.fails e.Spares) stop (subscriptionExpiry (scanOrder o) t) s := by
  refine ⟨?_, trivial⟩
  rintro r ⟨hmay, msg, rfl⟩
  have htrial : s.trialDays o.planCode ≤ 0 := hmay htype
  refine .inr ⟨?_, rfl⟩
  have hexpiry : addInterval t o.interval 0 = s.subscriptionExpiry o t := (addInterval_noTrial htrial).symm
  have hread := @run_subscriptionExpiry w t s o
  exact congrArg ret (hexpiry.trans (congrArg Prod.fst hread).symm)

theorem retries_grant (htype : e.type = .checkoutCompleted) (hgrants : db.Grants e o)
    (h : db.Pays e o s cur) (hcons : s.Consistent) : Retries w e db (grant e (scanOrder o) t) s := by
  have hcur : s.order cur.id = some cur := Db.resolve_order h.grants.resolves
  obtain ⟨row, hws⟩ := Option.isSome_iff_exists.1 (hcons.orderWorkspace _ _ hcur)
  have hplan := hcons.orderPlan _ _ hcur
  rw [h.sale.workspaceID] at hws
  rw [h.sale.planCode] at hplan
  have hmove := @Op.exec_changeWorkspacePlan w t s o.workspaceID o.planCode ("webhook:" ++ e.channel)
    ("order:" ++ o.id) row hws hplan
  -- The plan is changed, and what follows changes the same row.
  have hpays : db.Pays e o (s.movePlan o.workspaceID (.setPlan o.planCode) (fun _ => Workspace.setPlan_id)
      o.planCode ("webhook:" ++ e.channel) ("order:" ++ o.id)) cur := by
    refine (h.updateWorkspace fun t row => ?_).record
    unfold Workspace.grant
    split <;> rfl
  refine retries_orFail (fun _ => rfl) Op.exec_getWorkspacePlan (fun _ => h.toward htype hgrants) ?_
  refine retries_orFail (fun _ => rfl) hmove (fun _ => h.toward htype hgrants) ?_
  refine .ite (fun hsub => .bind (failsFast_subscriptionExpiry htype) ?_) fun _ => ?_
  · have hsome : ((s.movePlan o.workspaceID (.setPlan o.planCode) (fun _ => Workspace.setPlan_id)
        o.planCode ("webhook:" ++ e.channel) ("order:" ++ o.id)).workspace o.workspaceID).isSome := by
      simp [hws]
    rw [run_subscriptionExpiry]
    refine retries_orFail (fun _ => rfl) (Op.exec_setWorkspaceSubscription hsome)
      (fun _ => hpays.toward htype hgrants) ?_
    refine retries_clearCancel h.events fun _ => Db.Pays.toward htype hgrants (hpays.updateWorkspace ?_)
    intro t' row
    rw [Workspace.grant_ref hsub]
    rfl
  · exact retries_clearCancel h.events fun _ => hpays.toward htype hgrants

/-- The order is read again, and paid or revived in between. -/
theorem retries_notPending (htype : e.type = .checkoutCompleted) (hs : db.Toward e s)
    (hcons : s.Consistent) (hcur : s.order o.id = some cur)
    (hpays : cur.Payable → db.Grants e o ∧ db.Pays e o s cur) :
    Retries w e db (notPending e (scanOrder o) t) s := by
  have hread : (Op.getOrder o.id).exec w s = (.ok (some (scanOrder cur)), s) := by
    rw [Op.exec_getOrder, hcur]
    rfl
  refine retries_orFail (fun _ => rfl) hread (fun _ => hs) ?_
  refine .ite (fun hpaid => ?_) fun _ => .ite (fun hcanceled => ?_) fun _ => retries_processed hs.events
  · obtain ⟨hgrants, h⟩ := hpays (.inr (.inl (Option.some.inj hpaid)))
    exact retries_grant htype hgrants h hcons
  · have hcanceled' : cur.status = .canceled := Option.some.inj hcanceled
    by_cases hexpiry : cur.canceledBy = some .expiry
    · obtain ⟨hgrants, h⟩ := hpays (.inr (.inr ⟨hcanceled', hexpiry⟩))
      have hrevive : (Op.reviveOrderAfterExpiry o.id t).exec w s = (.ok true, s.updateOrder o.id (.settle t)
          fun _ => OrderRow.settle_id) := by
        rw [@Db.updateOrder_congr s o.id _ (.revive t) _ (fun _ => OrderRow.revive_id) _ hcur
          (OrderRow.settle_canceled hcanceled')]
        simp only [Op.exec, hcur, hcanceled', hexpiry, and_self, if_true]
      refine retries_orFail (fun _ => rfl) hrevive (fun _ => hs) ?_
      refine retries_grant htype hgrants h.settle ?_
      have hgrows := Db.Grows.of_exec w (.reviveOrderAfterExpiry o.id t) s
      rw [hrevive] at hgrows
      exact hgrows.consistent hcons
    · have hrevive : (Op.reviveOrderAfterExpiry o.id t).exec w s = (.ok false, s) := by
        simp only [Op.exec, hcur, hexpiry, and_false, if_false]
      exact retries_orFail (fun _ => rfl) hrevive (fun _ => hs) (retries_processed hs.events)

theorem retries_pay (htype : e.type = .checkoutCompleted) (hs : db.Toward e s)
    (hcons : s.Consistent) (hcur : s.order o.id = some cur)
    (hpays : cur.Payable → db.Grants e o ∧ db.Pays e o s cur) :
    Retries w e db (pay e (scanOrder o) t) s := by
  have hfails : ∀ (updated : Except Err Unit → Svc (Except Err Unit)),
      (∀ msg, updated (.error (.text msg)) = failEvent e (.text msg)) →
      ∀ r, Op.fails e.Spares (.updateOrderStatus o.id .pending .paid t) s r → Stops e db (updated r) s := by
    rintro updated hfailed r ⟨-, msg, rfl⟩
    exact .inl ⟨_, hfailed msg, hs⟩
  by_cases hpending : cur.status = .pending
  · obtain ⟨hgrants, h⟩ := hpays (.inl hpending)
    have hexec : (Op.updateOrderStatus o.id .pending .paid t).exec w s = (.ok (), s.updateOrder o.id
        (.settle t) fun _ => OrderRow.settle_id) := by
      rw [Db.updateOrder_congr hcur (OrderRow.settle_pending hpending), ← hpending]
      exact Op.exec_updateOrderStatus hcur
    refine .call hexec (hfails _ fun _ => rfl) (retries_grant htype hgrants h.settle ?_)
    have hgrows := Db.Grows.of_exec w (.updateOrderStatus o.id .pending .paid t) s
    rw [hexec] at hgrows
    exact hgrows.consistent hcons
  · exact .call (Op.exec_updateOrderStatus_conflict hcur hpending) (hfails _ fun _ => rfl)
      (retries_notPending htype hs hcons hcur hpays)

/-- An order that takes no payment any more takes none the next time. -/
theorem Db.toward_unpayable (htype : e.type = .checkoutCompleted) (hres : db.resolve e = some o)
    (hamount : amountMismatch (scanOrder o) e = false) (hpay : ¬ o.Payable) :
    db.Toward e (db.anchor o.id e.paymentIntentRef) := by
  have hsame : ∀ {s : Db} {o : OrderRow} t, s.resolve e = some o → amountMismatch (scanOrder o) e = false →
      ¬ o.Payable → s.SameOutcome (s.handled e t) := by
    intro s o t hres hamount hpay
    simp only [handled, htype]
    exact (@touches_paidBy _ _ _ "" _ hres hamount hpay).sameOutcome fun _ => OrderRow.anchor_status
  refine ⟨fun t => ?_, ?_⟩
  · have hagain := hsame t (resolve_anchor hres) (OrderRow.sameSale_anchor.amountMismatch.trans hamount)
      (mt OrderRow.payable_anchor.1 hpay)
    exact (hsame t hres hamount hpay).symm.trans (sameOutcome_anchor.trans hagain)
  · unfold Db.anchor
    split <;> rfl

theorem retries_handlePaid (htype : e.type = .checkoutCompleted) (hdb : db.Consistent) :
    Retries w e db (handlePaid e t) db := by
  refine retries_resolveOrder (.refl e db) ?_
  cases hres : db.resolve e with
  | none => exact retries_processed rfl
  | some o =>
    refine .ite (fun _ => retries_processed rfl) fun hmis => ?_
    have hamount : amountMismatch (scanOrder o) e = false := by simpa using hmis
    have hcur : (db.anchor o.id e.paymentIntentRef).order o.id = some (o.anchor e.paymentIntentRef) := by
      rw [Db.order_anchor_self, Db.resolve_order hres]
      rfl
    have hpay : Retries w e db (pay e (scanOrder o) t) (db.anchor o.id e.paymentIntentRef) := by
      by_cases hpayable : o.Payable
      · have hgrants : db.Grants e o := ⟨hres, hamount, hpayable⟩
        have h := Db.Pays.anchor hgrants
        exact retries_pay htype (h.toward htype hgrants) hdb.anchor hcur fun _ => ⟨hgrants, h⟩
      · exact retries_pay htype (Db.toward_unpayable htype hres hamount hpayable) hdb.anchor hcur
          fun h => absurd (OrderRow.payable_anchor.1 h) hpayable
    refine .ite (fun hpi => ?_) fun hpi => ?_
    · refine retries_orFail (fun _ => rfl) Op.exec_setOrderPaymentIntentRef (fun _ => .refl e db) ?_
      rwa [Db.anchor, if_pos hpi] at hpay
    · rwa [Db.anchor, if_neg hpi] at hpay

end

/-- Every handler. -/
theorem retries_handle (hdb : db.Consistent) : Retries w e db (handle e t) db := by
  unfold handle
  cases htype : e.type with
  | checkoutCompleted => exact retries_handlePaid htype hdb
  | paymentFailed => exact retries_handleFailed
  | refundCreated => exact retries_handleRefund htype hdb
  | subscriptionRenewed => exact retries_handleRenewed htype hdb
  | subscriptionCanceled => exact retries_handleCanceled htype hdb
  | other name => exact retries_processed rfl

/-! ## Redeliveries -/

/-- A handler that is left with the mark of the event has come to its end. -/
theorem path_processed (hdb : db.Consistent)
    (h : Path (Op.Does w e.Spares) (handle e t) db (processed e) s) :
    (db.handled e t).SameOutcome s := by
  rcases h.failsFast (retries_handle hdb) with hsound | ⟨n, s₁, ⟨err, rfl, -⟩ | ⟨err, rfl, -⟩, hrest⟩
  · have hmark : Path (Sound (Op.exec w)) (processed e) s (ret (.ok ()))
        (s.markEvent e.key .processed none) := .step rfl (.refl _ _)
    have hrun := (hsound.trans hmark).eq_run
    rw [run_handle hdb, Prod.mk.injEq] at hrun
    have hmarked : ((db.handled e t).markEvent e.key .processed none).SameOutcome s :=
      hrun.2 ▸ Db.sameOutcome_markEvent.symm
    exact Db.sameOutcome_markEvent.trans hmarked
  · rcases hrest.call_cases with ⟨hn, -⟩ | ⟨r, s₂, -, hret⟩
    · exact absurd hn.symm Attempt.failEvent_ne_processed
    · exact absurd hret.ret_eq.1 nofun
  · exact absurd hrest.ret_eq.1 nofun

/-- A handler that is left with an error to record comes to the same end from there. -/
theorem path_failEvent (hdb : db.Consistent) {err : Err}
    (h : Path (Op.Does w e.Spares) (handle e t) db (failEvent e err) s) : db.Toward e s := by
  rcases h.failsFast (retries_handle hdb) with hsound | ⟨n, s₁, ⟨err', rfl, hs₁⟩ | ⟨err', rfl, -⟩, hrest⟩
  · have hmark : Path (Sound (Op.exec w)) (failEvent e err) s (ret (.error err))
        (s.markEvent e.key .error (some err.message)) := .step rfl (.refl _ _)
    have hrun := (hsound.trans hmark).eq_run
    rw [run_handle hdb, Prod.mk.injEq] at hrun
    exact absurd hrun.1 nofun
  · rcases hrest.call_cases with ⟨-, rfl⟩ | ⟨r, s₂, -, hret⟩
    · exact hs₁
    · exact absurd hret.ret_eq.1 nofun
  · exact absurd hrest.ret_eq.1 nofun

/-- The error is recorded: recording it may not fail. -/
theorem path_recorded {err : Err} {r : Except Err Unit}
    (h : Path (Op.Does w e.Spares) (failEvent e err) s (ret r) s') :
    r = .error err ∧ s' = s.markEvent e.key .error (some err.message) := by
  obtain ⟨r', s₁, hmark, hret⟩ := h.call_ret
  obtain ⟨hr, rfl⟩ := hret.ret_eq
  rcases hmark with hexec | ⟨⟨hmay, -⟩, -⟩
  · exact ⟨Script.ret.inj hr, (Prod.ext_iff.1 hexec).2.symm⟩
  · exact hmay.elim

/-- A failed handler has recorded the error in a state from which it comes to the same
end, or it has come to its end and has not been able to mark the event. -/
theorem path_handle (hdb : db.Consistent) {r : Except Err Unit}
    (h : Path (Op.Does w e.Spares) (handle e t) db (ret r) s) :
    (∃ s₁ err, db.Toward e s₁ ∧ s = s₁.markEvent e.key .error err ∧ r ≠ .ok ()) ∨
      (db.handled e t).SameOutcome s ∧ (r = .ok () ∨ s.paymentEvents = db.paymentEvents) := by
  rcases h.failsFast (retries_handle hdb) with hsound | ⟨n, s₁, ⟨err, rfl, hs₁⟩ | ⟨err, rfl, hevents⟩, hrest⟩
  · have hrun := hsound.eq_run
    rw [run_handle hdb, Prod.mk.injEq] at hrun
    obtain ⟨rfl, rfl⟩ := hrun
    exact .inr ⟨Db.sameOutcome_markEvent, .inl rfl⟩
  · obtain ⟨rfl, rfl⟩ := path_recorded hrest
    exact .inl ⟨s₁, _, hs₁, rfl, nofun⟩
  · obtain ⟨hr, rfl⟩ := hrest.ret_eq
    rcases Concludes.path h concludes_handle with hend | ⟨s₂, hfirst, hmark⟩ | ⟨err', s₂, hfirst, hmark⟩
    · rw [hr] at hend
      cases hend with
      | ok h => cases h
      | processed h => cases h
      | failEvent h => cases h
    · refine .inr ⟨(path_processed hdb hfirst).trans ?_, .inr hevents⟩
      obtain ⟨r', s₃, hdoes, hret⟩ := hmark.call_ret
      obtain ⟨-, rfl⟩ := hret.ret_eq
      rcases hdoes with hexec | ⟨-, rfl⟩
      · rw [show s = s₂.markEvent e.key .processed none from (Prod.ext_iff.1 hexec).2.symm]
        exact Db.sameOutcome_markEvent
      · exact .refl _
    · obtain ⟨rfl, rfl⟩ := path_recorded hmark
      exact .inl ⟨s₂, _, path_failEvent hdb hfirst, rfl, nofun⟩

end

/-- One event is delivered until a delivery succeeds. -/
inductive Redelivers (may : {β : Type} → Op β → Db → Prop) (e : PaymentEvent) : Db → List Time → Db → Prop
  | last {w : World} {t : Time} {db db' : Db}
      (h : Path (Op.Does w may) (deliver e t) db (ret (.ok ())) db') : Redelivers @may e db [t] db'
  | again {w : World} {t : Time} {err : Err} {db s db' : Db} {ts : List Time}
      (h : Path (Op.Does w may) (deliver e t) db (ret (.error err)) s)
      (hrest : Redelivers @may e s ts db') : Redelivers @may e db (t :: ts) db'

section

variable {w : World} {e : PaymentEvent} {db s s' : Db} {t : Time} {ts : List Time}

/-- An event that is not accepted changes nothing, whether a call fails or not. -/
theorem path_deliver_refused (haccept : ¬ db.Accepts e) {r : Except Err Unit}
    (h : Path (Op.Does w e.Spares) (deliver e t) db (ret r) s) : s = db := by
  obtain ⟨r', s₁, hinsert, hpath⟩ := h.call_ret
  rcases hinsert with hexec | ⟨⟨-, msg, rfl⟩, rfl⟩
  · obtain ⟨r₀, hr₀, hrefused⟩ := @Op.exec_insertPaymentEvent_refused w e db haccept
    obtain ⟨rfl, rfl⟩ := Prod.mk.inj (hrefused.symm.trans hexec)
    rcases r₀ with err | _ | _
    · exact hpath.ret_eq.2
    · exact hpath.ret_eq.2
    · exact absurd rfl hr₀
  · exact hpath.ret_eq.2

theorem Redelivers.refused (h : Redelivers e.Spares e db ts s) (haccept : ¬ db.Accepts e) : s = db := by
  induction h with
  | last h => exact path_deliver_refused haccept h
  | again h _ ih =>
    have hsame := path_deliver_refused haccept h
    rw [hsame] at ih
    exact ih haccept

/-- The row of the event once it is received. -/
theorem Db.paymentEvent_received : ∃ row, (db.received e).paymentEvent e.key = some row ∧
    row.processStatus = .received := by
  unfold received
  split
  · rename_i hnone
    refine ⟨e.row, ?_, rfl⟩
    have hget : (db.paymentEvents.insert e.row hnone).get e.key
        = if e.row.key = e.key then some e.row else db.paymentEvents.get e.key := Keyed.get_insert
    exact hget.trans (if_pos rfl)
  · rename_i hsome
    obtain ⟨row, hrow⟩ := Option.ne_none_iff_exists'.1 hsome
    refine ⟨row.mark .received none, ?_, rfl⟩
    exact (Keyed.get_update_self fun _ => PaymentEventRow.mark_key).trans (by rw [hrow]; rfl)

theorem Db.accepts_marked {row : PaymentEventRow} {err : Option String}
    (hrow : db.paymentEvent e.key = some row) : (db.markEvent e.key .error err).Accepts e := by
  have hmarked : (db.markEvent e.key .error err).paymentEvent e.key = some (row.mark .error err) :=
    (Keyed.get_update_self fun _ => PaymentEventRow.mark_key).trans (congrArg _ hrow)
  unfold Accepts
  rw [hmarked]
  rfl

theorem Db.not_accepts {row : PaymentEventRow} (hrow : db.paymentEvent e.key = some row)
    (hstatus : row.processStatus ≠ .error) : ¬ db.Accepts e := by
  unfold Accepts
  rw [hrow]
  exact hstatus

/-- One delivery of an accepted event. It succeeds, and leaves what the handler leaves;
or it fails, and the next delivery comes to the same end, or it has come to its end. -/
theorem path_deliver (hdb : db.Consistent) (haccept : db.Accepts e) {r : Except Err Unit}
    (h : Path (Op.Does w e.Spares) (deliver e t) db (ret r) s) :
    (r ≠ .ok () ∧ s.Accepts e ∧ ∀ t, (db.handled e t).SameOutcome (s.handled e t)) ∨
      (db.handled e t).SameOutcome s ∧ (r = .ok () ∨ ¬ s.Accepts e) := by
  obtain ⟨r', s₁, hinsert, hpath⟩ := h.call_ret
  rcases hinsert with hexec | ⟨⟨-, msg, rfl⟩, rfl⟩
  case inr =>
    obtain ⟨hr, rfl⟩ := hpath.ret_eq
    cases hr
    exact .inl ⟨nofun, haccept, fun t => .refl _⟩
  obtain ⟨rfl, rfl⟩ := Prod.mk.inj ((Op.exec_insertPaymentEvent haccept).symm.trans hexec)
  obtain ⟨events, hreceived, -⟩ := @Db.received_eq e db
  obtain ⟨row, hrow, hstatus⟩ := @Db.paymentEvent_received e db
  have hcons : (db.received e).Consistent := hreceived ▸ hdb.withEvents
  have hsame : ∀ t, (db.handled e t).SameOutcome ((db.received e).handled e t) := by
    intro t
    rw [hreceived, Db.handled_withEvents]
    exact Db.sameOutcome_withEvents
  rcases path_handle hcons hpath with ⟨s₁, err, hs₁, rfl, hr⟩ | ⟨hend, hr⟩
  · refine .inl ⟨hr, @Db.accepts_marked e _ row _ ?_, fun t => ?_⟩
    · rw [Db.paymentEvent, hs₁.events]
      exact hrow
    · have hmark : (s₁.markEvent e.key .error err).handled e t = (s₁.handled e t).withEvents _ :=
        Db.handled_withEvents
      rw [hmark]
      exact (hsame t).trans ((hs₁.outcome t).trans Db.sameOutcome_withEvents)
  · refine .inr ⟨(hsame t).trans hend, hr.imp_right fun hevents => ?_⟩
    refine @Db.not_accepts e _ row ?_ (by rw [hstatus]; decide)
    rw [Db.paymentEvent, hevents]
    exact hrow

theorem Redelivers.sameOutcome (h : Redelivers e.Spares e db ts s) (hdb : db.Consistent)
    (haccept : db.Accepts e) : ∃ t ∈ ts, (db.handled e t).SameOutcome s := by
  induction h with
  | @last _ t _ _ h =>
    rcases path_deliver hdb haccept h with ⟨hr, -⟩ | ⟨hend, -⟩
    · exact absurd rfl hr
    · exact ⟨t, .head _, hend⟩
  | @again _ t _ _ s _ ts h hrest ih =>
    rcases path_deliver hdb haccept h with ⟨-, haccept', hsame⟩ | ⟨hend, hr⟩
    · obtain ⟨t', ht', hlast⟩ := ih ((Db.Grows.of_path h).consistent hdb) haccept'
      exact ⟨t', .tail _ ht', (hsame t').trans hlast⟩
    · rcases hr with hr | hrefused
      · cases hr
      · rw [hrest.refused hrefused]
        exact ⟨t, .head _, hend⟩

/-- Redeliveries of one event whose calls fail where they may. When a delivery has
succeeded at last, statuses, plans, expiries, subscription references and cancel marks
are those that one of the deliveries leaves when no call fails. -/
theorem retry_converges (hdb : Reachable db) (h : Redelivers e.Spares e db ts s) (w : World) :
    ∃ t ∈ ts, (delivered w e t db).SameOutcome s := by
  by_cases haccept : db.Accepts e
  · obtain ⟨t, ht, hsame⟩ := h.sameOutcome hdb.consistent haccept
    obtain ⟨events, hdeliv⟩ := @delivered_accepted w e t db hdb.consistent haccept
    refine ⟨t, ht, ?_⟩
    rw [hdeliv]
    exact Db.sameOutcome_withEvents.symm.trans hsame
  · have hne : ∃ t, t ∈ ts := by
      cases h with
      | last => exact ⟨_, .head _⟩
      | again => exact ⟨_, .head _⟩
    obtain ⟨t, ht⟩ := hne
    refine ⟨t, ht, ?_⟩
    rw [delivered_refused haccept, h.refused haccept]
    exact .refl db

end

/-! ### Deliveries that fail once -/

/-- The delivery of an event whose call number `n` fails. -/
def failedDelivery (w : World) (e : PaymentEvent) (t : Time) (n : Nat) (db : Db) : Except Err Unit × Db :=
  let before := (deliver e t).advance (Op.exec w) n db
  (before.1.answerNext (Op.failed (.text "timeout"))).run (Op.exec w) before.2

theorem path_failedDelivery {may : {β : Type} → Op β → Db → Prop} {w : World} {e : PaymentEvent}
    {t : Time} {n : Nat} {db : Db} (hnext : ((deliver e t).advance (Op.exec w) n db).1.Next fun o =>
      may o ((deliver e t).advance (Op.exec w) n db).2) :
    Path (Op.Does w may) (deliver e t) db (ret (failedDelivery w e t n db).1)
      (failedDelivery w e t n db).2 := by
  have hbefore : Path (Op.Does w may) (deliver e t) db ((deliver e t).advance (Op.exec w) n db).1
      ((deliver e t).advance (Op.exec w) n db).2 := (path_advance n _ _).mono fun _ _ _ _ => .inl
  refine hbefore.trans (.trans (@path_answerNext _ _ _ _ (Op.failed (.text "timeout")) _ _ ?_)
    (run_path (fun o s => Faulty.of_exec o s) _ _))
  cases hm : ((deliver e t).advance (Op.exec w) n db).1 with
  | ret r =>
    rw [hm] at hnext
    exact hnext.elim
  | call o k =>
    rw [hm] at hnext
    exact .inr ⟨⟨hnext, _, rfl⟩, rfl⟩

/-- The cancellation of the subscription s1. -/
def cancellationOfFirst : PaymentEvent where
  channel := "paypal"
  channelEventID := "e3"
  type := .subscriptionCanceled
  subscriptionRef := "s1"

/-- The subscription reference cannot be cleared the first time. -/
def canceledAtLast : Db :=
  delivered (smallWorld 5) cancellationOfFirst 31
    (failedDelivery (smallWorld 5) cancellationOfFirst 30 3 subscribed).2

theorem retry_converges_canceled : ∃ t ∈ [30, 31],
    (delivered (smallWorld 5) cancellationOfFirst t subscribed).SameOutcome canceledAtLast := by
  have hfailed : (failedDelivery (smallWorld 5) cancellationOfFirst 30 3 subscribed).1
      = .error (.text "timeout") := by decide
  have hlast : ((deliver cancellationOfFirst 31).run (Op.exec (smallWorld 5))
      (failedDelivery (smallWorld 5) cancellationOfFirst 30 3 subscribed).2).1 = .ok () := by
    decide
  have hspared : cancellationOfFirst.type ≠ .refundCreated := by decide
  have hfirst := @path_failedDelivery cancellationOfFirst.Spares (smallWorld 5) cancellationOfFirst 30 3
    subscribed hspared
  have hrest : Path (Op.Does (smallWorld 5) cancellationOfFirst.Spares) (deliver cancellationOfFirst 31)
      _ (ret _) canceledAtLast := run_path (fun o s => Faulty.of_exec o s) _ _
  rw [hfailed] at hfirst
  rw [hlast] at hrest
  exact retry_converges subscribed_reachable (.again hfirst (.last hrest)) (smallWorld 5)

/-- The order is refunded, and the plan cannot be changed; the next time the order is
refunded already. -/
theorem refund_not_resumed : ∃ db e ts s w, Reachable db ∧
    Redelivers (fun o _ => ¬ o.IsMarkEventError) e db ts s ∧
    ∀ t ∈ ts, ¬ (delivered w e t db).SameOutcome s := by
  have hfailed : (failedDelivery (smallWorld 5) refundOfFirst 40 3 subscribed).1
      = .error (.text "timeout") := by decide
  have hlast : ((deliver refundOfFirst 41).run (Op.exec (smallWorld 5))
      (failedDelivery (smallWorld 5) refundOfFirst 40 3 subscribed).2).1 = .ok () := by
    decide
  have hfirst := @path_failedDelivery (fun o _ => ¬ o.IsMarkEventError) (smallWorld 5) refundOfFirst 40 3
    subscribed fun h => h
  have hrest : Path (Op.Does (smallWorld 5) fun o _ => ¬ o.IsMarkEventError) (deliver refundOfFirst 41)
      (failedDelivery (smallWorld 5) refundOfFirst 40 3 subscribed).2 (ret _) _ :=
    run_path (fun o s => Faulty.of_exec o s) _ _
  rw [hfailed] at hfirst
  rw [hlast] at hrest
  refine ⟨subscribed, refundOfFirst, [40, 41], _, smallWorld 5, subscribed_reachable,
    .again hfirst (.last hrest), fun t ht hsame => ?_⟩
  have hdiffers : ∀ t ∈ [40, 41], (delivered (smallWorld 5) refundOfFirst t subscribed).workspace "w1"
      ≠ ((deliver refundOfFirst 41).run (Op.exec (smallWorld 5))
        (failedDelivery (smallWorld 5) refundOfFirst 40 3 subscribed).2).2.workspace "w1" := by
    decide
  exact hdiffers t ht (hsame.workspace "w1").symm

end Ploykit.Billing

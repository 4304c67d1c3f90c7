import Ploykit.Billing.Rows

/-!
# Cancel marks

Refunds, cancellations and the expiry sweep end what a workspace has bought. What
has been recorded about it, a cancel request and an expiry, ends with it: a mark
that stays is taken for one of the next subscription.
-/

namespace Ploykit.Billing

open Lib Script

/-! ## Rows -/

namespace Workspace

/-- Neither a cancel request nor an expiry is left. -/
structure Cleared (w : Workspace) : Prop where
  mark : w.cancelRequestedAt = none
  expiry : w.planExpiresAt = none

/-- An expiry is that of a subscription, and a workspace that has nothing to cancel
has no cancel request. -/
structure Tidy (w : Workspace) : Prop where
  expiry : w.planExpiresAt ≠ none → w.subscriptionRef ≠ none
  mark : w.planCode = "free" → w.subscriptionRef = none → w.cancelRequestedAt = none

variable {w : Workspace} {plan sub : String} {t : Time}

theorem Tidy.cleared (h : w.Tidy) (hplan : w.planCode = "free") (hsub : w.subscriptionRef = none) :
    w.Cleared where
  mark := h.mark hplan hsub
  expiry := by
    by_contra hexpiry
    exact h.expiry hexpiry hsub

theorem Cleared.tidy (h : w.Cleared) : w.Tidy where
  expiry hexpiry := absurd h.expiry hexpiry
  mark _ _ := h.mark

theorem nullif_ne_none (h : sub ≠ "") : nullif sub ≠ none := by simp [nullif, h]

theorem Tidy.of_subscription (h : w.subscriptionRef ≠ none) : w.Tidy where
  expiry _ := h
  mark _ hsub := absurd hsub h

theorem Tidy.clearCancel (h : w.planExpiresAt ≠ none → w.subscriptionRef ≠ none) :
    w.clearCancel.Tidy where
  expiry := h
  mark _ _ := rfl

theorem Tidy.grant (h : w.Tidy) : (w.grant plan sub t).Tidy := by
  unfold Workspace.grant
  split
  · exact .clearCancel fun _ => nullif_ne_none ‹_›
  · exact .clearCancel h.expiry

theorem Cleared.expire : w.expire.Cleared := ⟨rfl, rfl⟩

theorem Cleared.unsubscribe : w.unsubscribe.Cleared := ⟨rfl, rfl⟩

/-- A refund clears what there is to clear only if it names a subscription. -/
theorem Cleared.revoke (h : sub = "" → w.Cleared) : (w.revoke sub).Cleared := by
  unfold Workspace.revoke
  split
  · exact .unsubscribe
  · rename_i hsub
    have hcleared : w.Cleared := h (not_not.1 hsub)
    exact ⟨hcleared.mark, hcleared.expiry⟩

end Workspace

/-- The change of plan ends what the workspace has: it is to the free plan, and no
order has paid for that. -/
def SubscriptionEvent.Ends (ev : SubscriptionEvent) : Prop :=
  ev.toPlan = "free" ∧ ∀ id, ev.reason ≠ "order:" ++ id

/-! ## Tables -/

/-- Tidy workspaces stay tidy, and where an entitlement ends the workspace is cleared. -/
structure Db.Tidies (db db' : Db) : Prop where
  rows : ∀ id row', db'.workspace id = some row' →
    ∃ row, db.workspace id = some row ∧ (row.Tidy → row'.Tidy)
  events : ∃ new, db'.subscriptionEvents = db.subscriptionEvents ++ new ∧
    ∀ ev ∈ new, ev.Ends → ∃ row, db'.workspace ev.workspaceID = some row ∧ row.Cleared

namespace Db.Tidies

variable {db db₁ db' : Db} {ws plan actor reason : String} {f : Workspace → Workspace}
  {row : Workspace}

/-- The workspaces change without an event. -/
theorem of_rows (hrows : ∀ id row', db'.workspace id = some row' →
      ∃ row, db.workspace id = some row ∧ (row.Tidy → row'.Tidy))
    (hev : db'.subscriptionEvents = db.subscriptionEvents) : db.Tidies db' where
  rows := hrows
  events := ⟨[], by rw [hev, List.append_nil], fun _ h => absurd h List.not_mem_nil⟩

theorem of_eq (hws : db'.workspaces = db.workspaces)
    (hev : db'.subscriptionEvents = db.subscriptionEvents) : db.Tidies db' := by
  refine of_rows (fun id row' hrow' => ⟨row', ?_, fun h => h⟩) hev
  rw [workspace, hws] at hrow'
  exact hrow'

theorem refl (db : Db) : db.Tidies db := .of_eq rfl rfl

/-- What is done before the event. -/
theorem trans (h : db.Tidies db₁) (hev : db₁.subscriptionEvents = db.subscriptionEvents)
    (h' : db₁.Tidies db') : db.Tidies db' where
  rows id row' hrow' := by
    obtain ⟨row₁, hrow₁, htidy'⟩ := h'.rows id row' hrow'
    obtain ⟨row, hrow, htidy⟩ := h.rows id row₁ hrow₁
    exact ⟨row, hrow, fun h => htidy' (htidy h)⟩
  events := by
    rw [← hev]
    exact h'.events

theorem of_updateWorkspace (hf : ∀ w, (f w).id = w.id)
    (htidy : ∀ row, db.workspace ws = some row → row.Tidy → (f row).Tidy) :
    db.Tidies (db.updateWorkspace ws f hf) := by
  refine of_rows (fun id row' hrow' => ?_) rfl
  rw [workspace, updateWorkspace, Keyed.get_update] at hrow'
  split at hrow'
  · rename_i hid
    rw [List.mem_singleton] at hid
    obtain ⟨row, hrow, rfl⟩ := Option.map_eq_some_iff.1 hrow'
    exact ⟨row, hrow, htidy row (hid ▸ hrow)⟩
  · exact ⟨row', hrow', fun h => h⟩

theorem of_movePlan (hf : ∀ w, (f w).id = w.id) (hrow : db.workspace ws = some row)
    (htidy : row.Tidy → (f row).Tidy)
    (hends : SubscriptionEvent.Ends ⟨ws, db.planOf ws, plan, reason, actor⟩ → (f row).Cleared) :
    db.Tidies (db.movePlan ws f hf plan actor reason) where
  rows := (of_updateWorkspace hf fun row₁ hrow₁ => by
    cases hrow.symm.trans hrow₁
    exact htidy).rows
  events := by
    refine ⟨[_], rfl, fun ev hev hend => ?_⟩
    rw [List.mem_singleton] at hev
    subst hev
    refine ⟨f row, ?_, hends hend⟩
    rw [workspace_movePlan, hrow]
    rfl

/-- A change to a cleared row, with an event or none that ends something. -/
theorem of_cleared (hf : ∀ w, (f w).id = w.id) (hrow : db.workspace ws = some row)
    (hcleared : (f row).Cleared) : db.Tidies (db.movePlan ws f hf plan actor reason) :=
  of_movePlan hf hrow (fun _ => hcleared.tidy) fun _ => hcleared

theorem tidy (h : db.Tidies db') (hdb : ∀ id row, db.workspace id = some row → row.Tidy) :
    ∀ id row, db'.workspace id = some row → row.Tidy := by
  intro id row' hrow'
  obtain ⟨row, hrow, htidy⟩ := h.rows id row' hrow'
  exact htidy (hdb id row hrow)

end Db.Tidies

/-! ## Webhooks -/

/-- A refund that does not name a subscription finds nothing to clear. -/
def Db.ClearsRefund (db : Db) (e : PaymentEvent) : Prop :=
  e.type = .refundCreated → e.subscriptionRef = "" → ∀ o, db.resolve e = some o → o.status = .paid →
    ∀ row, db.workspace o.workspaceID = some row → row.Cleared

namespace Db

variable {db : Db} {e : PaymentEvent} {now : Time} {id ref : String}

theorem tidies_anchor : db.Tidies (db.anchor id ref) := by
  unfold anchor
  split
  · exact .of_eq rfl rfl
  · exact .refl db

@[simp] theorem subscriptionEvents_anchor :
    (db.anchor id ref).subscriptionEvents = db.subscriptionEvents := by
  unfold anchor
  split <;> rfl

theorem tidies_paidBy (hdb : db.Consistent) : db.Tidies (db.paidBy e now) := by
  unfold paidBy
  cases hres : db.resolve e with
  | none => exact .refl db
  | some o =>
    simp only []
    split
    · exact .refl db
    · split
      · obtain ⟨row, hrow⟩ := Option.isSome_iff_exists.1 (hdb.orderWorkspace _ _ (resolve_order hres))
        have hanchor : db.Tidies (db.anchor o.id e.paymentIntentRef) := tidies_anchor
        have hsettled : db.Tidies ((db.anchor o.id e.paymentIntentRef).updateOrder o.id (.settle now)
            fun _ => OrderRow.settle_id) :=
          hanchor.trans subscriptionEvents_anchor (.of_eq rfl rfl)
        have hrow' : ((db.anchor o.id e.paymentIntentRef).updateOrder o.id (.settle now) fun _ =>
            OrderRow.settle_id).workspace o.workspaceID = some row := by
          rw [workspace_updateOrder, workspace_anchor]
          exact hrow
        refine hsettled.trans subscriptionEvents_anchor (.of_movePlan _ hrow' Workspace.Tidy.grant ?_)
        rintro ⟨-, hreason⟩
        exact absurd rfl (hreason o.id)
      · exact tidies_anchor

theorem tidies_failedBy : db.Tidies (db.failedBy e) := by
  unfold failedBy
  split
  · exact .refl db
  · split
    · exact .of_eq rfl rfl
    · exact .refl db

theorem tidies_refundedBy (hdb : db.Consistent) (htype : e.type = .refundCreated)
    (h : db.ClearsRefund e) : db.Tidies (db.refundedBy e now) := by
  unfold refundedBy
  cases hres : db.resolve e with
  | none => exact .refl db
  | some o =>
    simp only []
    split
    · rename_i hpaid
      obtain ⟨row, hrow⟩ := Option.isSome_iff_exists.1 (hdb.orderWorkspace _ _ (resolve_order hres))
      have hcleared : (row.revoke e.subscriptionRef).Cleared :=
        .revoke fun hsub => h htype hsub o hres hpaid row hrow
      have hrefunded : db.Tidies (db.updateStatus o.id .refunded now) := .of_eq rfl rfl
      have hrow' : (db.updateStatus o.id .refunded now).workspace o.workspaceID = some row := hrow
      exact hrefunded.trans rfl (.of_cleared _ hrow' hcleared)
    · exact .refl db

theorem tidies_planRestored {row : Workspace} (hrow : db.workspace row.id = some row)
    (hsub : row.subscriptionRef ≠ none) {plan : String} :
    db.Tidies (db.planRestored e row.id plan) := by
  unfold planRestored
  split
  · rename_i hfree
    split
    · exact .refl db
    · split
      · rename_i hplan
        -- The plan that comes back is not the free one.
        refine .of_movePlan _ hrow (fun _ => .of_subscription hsub) fun hends => ?_
        exact absurd (hends.1.trans hfree.2.symm) hplan.2
      · exact .refl db
  · exact .refl db

theorem tidies_extendedBy : db.Tidies (db.extendedBy e now) := by
  unfold extendedBy
  cases hfound : db.findWorkspaceBySubscription e.subscriptionRef with
  | none => exact .refl db
  | some row =>
    obtain ⟨hrow, hsub⟩ := workspace_of_subscription hfound
    have href : e.subscriptionRef ≠ "" := by
      obtain ⟨ref, -, href⟩ := Option.map_eq_some_iff.1 hsub
      exact href ▸ ref.2
    have hset : db.Tidies (db.setSubscription row.id e.subscriptionRef (db.renewalExpiry row.id now)) :=
      .of_updateWorkspace _ fun _ _ _ => .of_subscription (Workspace.nullif_ne_none href)
    have hrow' : (db.setSubscription row.id e.subscriptionRef (db.renewalExpiry row.id now)).workspace
        row.id = some (row.setSubscription e.subscriptionRef (db.renewalExpiry row.id now)) := by
      rw [workspace_setSubscription, hrow]
      rfl
    have href' : (row.setSubscription e.subscriptionRef (db.renewalExpiry row.id now)).subscriptionRef
        ≠ none := Workspace.nullif_ne_none href
    exact .trans hset rfl (tidies_planRestored hrow' href')

theorem tidies_renewedBy : db.Tidies (db.renewedBy e now) := by
  unfold renewedBy
  split
  · split
    · exact tidies_anchor
    · exact .trans tidies_anchor subscriptionEvents_anchor tidies_extendedBy
  · exact tidies_extendedBy

theorem tidies_canceledBy : db.Tidies (db.canceledBy e) := by
  unfold canceledBy
  cases hfound : db.findWorkspaceBySubscription e.subscriptionRef with
  | none => exact .refl db
  | some row => exact .of_cleared _ (workspace_of_subscription hfound).1 .unsubscribe

theorem tidies_handled (hdb : db.Consistent) (h : db.ClearsRefund e) :
    db.Tidies (db.handled e now) := by
  unfold handled
  cases htype : e.type with
  | checkoutCompleted => exact tidies_paidBy hdb
  | paymentFailed => exact tidies_failedBy
  | refundCreated => exact tidies_refundedBy hdb htype h
  | subscriptionRenewed => exact tidies_renewedBy
  | subscriptionCanceled => exact tidies_canceledBy
  | other name => exact .refl db

theorem tidies_delivered {w : World} (hdb : db.Consistent) (h : db.Accepts e → db.ClearsRefund e) :
    db.Tidies (delivered w e now db) := by
  by_cases haccept : db.Accepts e
  · obtain ⟨events, hdeliv⟩ := @delivered_accepted w e now db hdb haccept
    obtain ⟨hrows, hevents⟩ := @tidies_handled db e now hdb (h haccept)
    rw [hdeliv]
    exact ⟨hrows, hevents⟩
  · rw [delivered_refused haccept]
    exact .refl db

end Db

/-! ## Services -/

/-- The services that deal with orders leave the workspaces. -/
theorem OrderOp.exec_workspaces {w : World} {β : Type} {o : Op β} (h : OrderOp o) (db : Db) :
    (o.exec w db).2.workspaces = db.workspaces ∧
      (o.exec w db).2.subscriptionEvents = db.subscriptionEvents := by
  have hguarded : ∀ id cur (db' : Db), db'.workspaces = db.workspaces →
      db'.subscriptionEvents = db.subscriptionEvents →
      (Op.guarded db id cur db').2.workspaces = db.workspaces ∧
        (Op.guarded db id cur db').2.subscriptionEvents = db.subscriptionEvents := by
    intro id cur db' hws hev
    unfold Op.guarded
    split
    · split
      · exact ⟨hws, hev⟩
      · exact ⟨rfl, rfl⟩
    · exact ⟨rfl, rfl⟩
  have hinsert : ∀ row, (db.insertOrder row).2.workspaces = db.workspaces ∧
      (db.insertOrder row).2.subscriptionEvents = db.subscriptionEvents := by
    intro row
    unfold Db.insertOrder
    split
    · exact ⟨rfl, rfl⟩
    · split <;> exact ⟨rfl, rfl⟩
  cases o with
  | createOrder order => exact hinsert _
  | updateOrderStatus id cur next now => exact hguarded id cur _ rfl rfl
  | cancelOrder id cur by' now => exact hguarded id cur _ rfl rfl
  | payOrder id now => exact hguarded id .pending _ rfl rfl
  | insertOverageOrder order =>
    simp only [Op.exec]
    split
    · exact ⟨rfl, rfl⟩
    · split
      · exact ⟨rfl, rfl⟩
      · rename_i ws _ _
        have hins := hinsert (newOrder w db order ws.createdBy ws.planCode order.metadata)
        split
        · rename_i created db' heq
          rwa [heq] at hins
        · rename_i err db' heq
          rwa [heq] at hins
  | registerChannelProductAtomic channel plan interval price syncedAt =>
    simp only [Op.exec]
    split
    · split <;> exact ⟨rfl, rfl⟩
    · exact ⟨rfl, rfl⟩
  | changeWorkspacePlan => exact h.elim
  | setWorkspaceSubscription => exact h.elim
  | setWorkspaceCancelRequested => exact h.elim
  | clearWorkspaceCancelRequested => exact h.elim
  | expireDueWorkspaces => exact h.elim
  | reviveOrderAfterExpiry => exact h.elim
  | failOrder => exact h.elim
  | setOrderPaymentIntentRef => exact h.elim
  | insertPaymentEvent => exact h.elim
  | markEventProcessed => exact h.elim
  | markEventError => exact h.elim
  | _ => exact ⟨rfl, rfl⟩

namespace Db

variable {db : Db} {w : World} {now : Time} {channels : ChannelSet} {ws : String}

theorem tidies_orderOp {α : Type} {m : Svc α} (h : m.Calls OrderOp) : db.Tidies (m.run (Op.exec w) db).2 := by
  have hpath : Path (Sound (Op.exec w)) m db _ _ := run_path (fun _ _ => rfl) m db
  obtain ⟨hws, hev⟩ := Path.relates (R := fun db db' : Db => db'.workspaces = db.workspaces ∧
      db'.subscriptionEvents = db.subscriptionEvents) (fun _ => ⟨rfl, rfl⟩)
    (fun _ _ _ h h' => ⟨h'.1.trans h.1, h'.2.trans h.2⟩)
    (fun o s r s' ho hstep => by
      have hexec := @OrderOp.exec_workspaces w _ o ho s
      rwa [show o.exec w s = (r, s') from hstep] at hexec) h hpath
  exact .of_eq hws hev

theorem tidies_expireWorkspaces {due : List Workspace} (hdue : ∀ row ∈ due, row ∈ db.workspaces.rows) :
    db.Tidies (db.expireWorkspaces due) where
  rows id row' hrow' := by
    rw [workspace, expireWorkspaces, Keyed.get_update] at hrow'
    split at hrow'
    · obtain ⟨row, hrow, rfl⟩ := Option.map_eq_some_iff.1 hrow'
      exact ⟨row, hrow, fun _ => Workspace.Cleared.expire.tidy⟩
    · exact ⟨row', hrow', fun h => h⟩
  events := by
    refine ⟨_, rfl, fun ev hev _ => ?_⟩
    obtain ⟨row, hmem, rfl⟩ := List.mem_map.1 hev
    have hrow : db.workspaces.get row.id = some row := Keyed.get_of_mem (hdue row hmem)
    refine ⟨row.expire, ?_, .expire⟩
    rw [workspace, expireWorkspaces, Keyed.get_update, if_pos (List.mem_map_of_mem hmem), hrow]
    rfl

theorem tidies_expireDueWorkspaces {limit : Nat} :
    db.Tidies ((expireDueWorkspaces now limit).run (Op.exec w) db).2 := by
  refine tidies_expireWorkspaces fun row hmem => ?_
  have hsort := List.mem_of_mem_take hmem
  rw [List.mem_insertionSort, List.mem_filter] at hsort
  exact hsort.1

/-! ### Cancellations -/

theorem run_locateSubscriptionChannel : (locateSubscriptionChannel channels ws).run (Op.exec w) db
    = (.ok (locateChannel channels ((db.ordersByWorkspace ws 20).map scanOrder)), db) := rfl

theorem run_replayCancelOutcome {subRef plan : String} :
    ((replayCancelOutcome channels ws subRef plan).run (Op.exec w) db).2 = db := by
  unfold replayCancelOutcome
  split
  · rfl
  · split
    · simp only [bind_eq, run_bind, run_locateSubscriptionChannel, orReturn]
      split
      · split <;> rfl
      · rfl
    · rfl

/-- The workspace that is asked about is on a paid plan or has a subscription. -/
theorem tidies_requestCancel {row : Workspace} {outcome : CancelOutcome}
    (hrow : db.workspace ws = some row) (h : row.planCode ≠ "free" ∨ row.subscriptionRef ≠ none) :
    db.Tidies ((requestCancel ws outcome now).run (Op.exec w) db).2 := by
  have hsome : (db.workspace ws).isSome := by rw [hrow]; rfl
  simp only [requestCancel, bind_eq, op_bind, run_call, Op.exec, hsome, if_true, orReturn, pure_eq,
    run_ret]
  refine .of_updateWorkspace _ fun row₁ hrow₁ htidy => ?_
  cases hrow.symm.trans hrow₁
  refine ⟨htidy.expiry, fun hplan hsub => ?_⟩
  rcases h with h | h
  · exact absurd hplan h
  · exact absurd hsub h

theorem subscription_eq_empty {o : Option SubscriptionRef} : (o.map Subtype.val).getD "" = "" ↔ o = none := by
  cases o with
  | none => simp
  | some ref => simp [ref.2]

theorem tidies_userCancelSubscription (hdb : db.Consistent) {p : Option Principal} :
    db.Tidies ((userCancelSubscription channels p ws now).run (Op.exec w) db).2 := by
  cases p with
  | none => exact .refl db
  | some p =>
  unfold userCancelSubscription
  simp only []
  split
  · exact .refl db
  split
  · exact .refl db
  simp only [bind_eq, op_bind, run_call, Op.exec]
  cases hrow : db.workspace ws with
  | none => exact .refl db
  | some row =>
  have hsome : (db.workspace ws).isSome := by rw [hrow]; rfl
  simp only [Option.map_some, orReturn, run_call, Op.exec, hrow, Option.getD_some, Option.bind_some]
  split
  · rw [run_replayCancelOutcome]
    exact .refl db
  rename_i hmark
  split
  · exact .refl db
  rename_i hactive
  split
  · rename_i hsub
    have hplan : row.planCode ≠ "free" := fun hplan => hactive ⟨hsub, hplan⟩
    exact tidies_requestCancel hrow (.inl hplan)
  rename_i hsub
  have href : row.subscriptionRef ≠ none := fun h => hsub (subscription_eq_empty.2 h)
  simp only [run_bind, run_locateSubscriptionChannel]
  split
  · exact tidies_requestCancel hrow (.inr href)
  simp only [run_call, Op.exec]
  split
  · exact .refl db
  split
  · -- The channel has ended the subscription at once. No cancel request was recorded before.
    have hmove := @Op.exec_changeWorkspacePlan w now db ws "free" ("user:" ++ p.userID) "user cancel"
      row hrow hdb.free
    have hnone : row.cancelRequestedAt = none := by simpa using hmark
    have hcleared : ((row.setPlan "free").setSubscription "" zeroTime).Cleared := ⟨hnone, rfl⟩
    have hsome' : ((db.movePlan ws (.setPlan "free") (fun _ => Workspace.setPlan_id) "free"
        ("user:" ++ p.userID) "user cancel").workspace ws).isSome := by
      rw [isSome_workspace_movePlan]
      exact hsome
    simp only [run_call, hmove, Op.exec_setWorkspaceSubscription hsome', setSubscription,
      movePlan_updateWorkspace]
    exact .of_cleared _ hrow hcleared
  · exact tidies_requestCancel hrow (.inr href)

theorem tidies_adminCancelSubscription (hdb : db.Consistent) {actor : Option Principal} :
    db.Tidies ((adminCancelSubscription channels actor ws now).run (Op.exec w) db).2 := by
  unfold adminCancelSubscription
  simp only [bind_eq, op_bind, run_call, Op.exec]
  cases hrow : db.workspace ws with
  | none => exact .refl db
  | some row =>
  have hsome : (db.workspace ws).isSome := by rw [hrow]; rfl
  have hmove := @Op.exec_changeWorkspacePlan w now db ws "free" (adminActor actor) "admin cancel"
    row hrow hdb.free
  have hsome' : ((db.movePlan ws (.setPlan "free") (fun _ => Workspace.setPlan_id) "free"
      (adminActor actor) "admin cancel").workspace ws).isSome := by
    rw [isSome_workspace_movePlan]
    exact hsome
  have hdowngrade : db.Tidies (db.movePlan ws (fun w => ((w.setPlan "free").setSubscription ""
      zeroTime).clearCancel) (fun _ => rfl) "free" (adminActor actor) "admin cancel") :=
    .of_cleared _ hrow ⟨rfl, rfl⟩
  simp only [Option.map_some, orReturn, run_call, Op.exec, hrow, Option.getD_some]
  split
  · exact .refl db
  split
  · simp only [run_bind, run_locateSubscriptionChannel]
    split
    · exact .refl db
    · split
      · exact .refl db
      · simp only [run_call, Op.exec]
        split
        · exact .refl db
        · simp only [run_call, hmove, Op.exec_setWorkspaceSubscription hsome', setSubscription,
            movePlan_updateWorkspace, op, Op.exec_clearWorkspaceCancelRequested, Db.clearCancel, run_ret]
          exact hdowngrade
  · simp only [run_call, hmove, Op.exec_setWorkspaceSubscription hsome', setSubscription,
      movePlan_updateWorkspace, op, Op.exec_clearWorkspaceCancelRequested, Db.clearCancel, run_ret]
    exact hdowngrade

end Db

/-! ## Runs -/

/-- Every request but the change of a plan by an admin. -/
def Request.KeepsPlans : Request → Prop
  | .changePlan .. => False
  | _ => True

/-- If the request is a refund that does not name a subscription, it finds nothing to clear. -/
def Request.ClearsRefund (rq : Request) (db : Db) : Prop :=
  ∀ e, rq.event = some e → db.Accepts e → db.ClearsRefund e

theorem Db.tidies_void {α : Type} {m : Svc (Except Err α)} {w : World} {db : Db}
    (h : db.Tidies (m.run (Op.exec w) db).2) : db.Tidies ((void m).run (Op.exec w) db).2 := by
  simp only [void, bind_eq, run_bind, pure_eq, run_ret]
  exact h

theorem Db.tidies_serve {db : Db} {w : World} {rq : Request} (hdb : db.Consistent)
    (hrq : rq.KeepsPlans) (h : rq.ClearsRefund db) : db.Tidies (serve w rq db) := by
  unfold serve
  cases rq with
  | webhook channels name req now =>
    rcases Request.script_webhook channels name req now with ⟨e, he, hs⟩ | ⟨-, err, hs⟩
    · rw [hs]
      exact tidies_delivered hdb (h e he)
    · rw [hs]
      exact .refl db
  | checkout => exact tidies_orderOp (calls_void calls_createCheckout)
  | cancelPendingOrder => exact tidies_orderOp calls_cancelPendingOrder
  | adminCancelPendingOrder => exact tidies_orderOp calls_adminCancelPendingOrder
  | markOrderPaid => exact tidies_orderOp calls_markOrderPaid
  | expireStaleOrders => exact .of_eq rfl rfl
  | expireDueWorkspaces => exact tidies_void tidies_expireDueWorkspaces
  | userCancelSubscription => exact tidies_void (tidies_userCancelSubscription hdb)
  | adminCancelSubscription => exact tidies_adminCancelSubscription hdb
  | changePlan => exact hrq.elim
  | meterDueOverages => exact tidies_orderOp (calls_void calls_meterDueOverages)

/-- One request is served completely. -/
def Completes (P : Request → Db → Prop) (db db' : Db) : Prop :=
  ∃ w rq, rq.KeepsPlans ∧ P rq db ∧ db' = serve w rq db

/-- In a run whose refunds without a subscription find nothing to clear, a workspace
that is free and has no subscription has neither a cancel request nor an expiry; and
where a request ends what a workspace has, it clears both. -/
theorem marks_cleared {db₀ db : Db} {past : List Db} (h₀ : Installed db₀)
    (run : Run (Completes Request.ClearsRefund) db₀ past db) :
    (∀ id row, db.workspace id = some row → row.planCode = "free" → row.subscriptionRef = none →
      row.cancelRequestedAt = none ∧ row.planExpiresAt = none) ∧
    ∀ w rq, rq.KeepsPlans → rq.ClearsRefund db → ∃ new,
      (serve w rq db).subscriptionEvents = db.subscriptionEvents ++ new ∧
        ∀ ev ∈ new, ev.Ends → ∃ row, (serve w rq db).workspace ev.workspaceID = some row ∧
          row.cancelRequestedAt = none ∧ row.planExpiresAt = none := by
  have hinv : db.Consistent ∧ ∀ id row, db.workspace id = some row → row.Tidy := by
    refine run.invariant (I := fun db : Db => db.Consistent ∧ ∀ id row, db.workspace id = some row →
      row.Tidy) ⟨h₀.consistent, fun id row hrow => ?_⟩ ?_
    · obtain ⟨-, hexpiry, -, hmark⟩ := h₀.workspaces row (Keyed.mem_of_get hrow)
      exact Workspace.Cleared.tidy ⟨hmark, hexpiry⟩
    · rintro db db' ⟨hcons, htidy⟩ ⟨w, rq, hrq, hclears, rfl⟩
      exact ⟨(serves_serve w rq db).grows.consistent hcons,
        (Db.tidies_serve hcons hrq hclears).tidy htidy⟩
  obtain ⟨hcons, htidy⟩ := hinv
  refine ⟨fun id row hrow hplan hsub => ?_, fun w rq hrq hclears => ?_⟩
  · have hcleared : row.Cleared := (htidy id row hrow).cleared hplan hsub
    exact ⟨hcleared.mark, hcleared.expiry⟩
  · obtain ⟨new, hnew, hends⟩ := (@Db.tidies_serve db w rq hcons hrq hclears).events
    refine ⟨new, hnew, fun ev hev hend => ?_⟩
    obtain ⟨row, hrow, hcleared⟩ := hends ev hev hend
    exact ⟨row, hrow, hcleared.mark, hcleared.expiry⟩

theorem completes_serveAll {P : Request → Db → Prop} {w : World} {rqs : List Request} {db : Db}
    (h : ∀ rq ∈ rqs, rq.KeepsPlans ∧ ∀ db, P rq db) :
    ∃ past, Run (Completes P) db past (serveAll w rqs db) := by
  induction rqs generalizing db with
  | nil => exact ⟨[], .start⟩
  | cons rq rqs ih =>
    obtain ⟨⟨hkeeps, hP⟩, hrqs⟩ := List.forall_mem_cons.1 h
    obtain ⟨past, hrun⟩ := @ih (serve w rq db) hrqs
    have hfirst : Run (Completes P) db [db] (serve w rq db) := .next .start ⟨w, rq, hkeeps, hP db, rfl⟩
    exact ⟨_, hfirst.trans hrun⟩

/-- An order is bought and paid, its cancellation is requested, and it is refunded. -/
def boughtAndRefunded (sub : String) : List Request :=
  [.buy "w1" .monthly "paypal" 10,
    .ofEvent { channel := "paypal", channelEventID := "e1", type := .checkoutCompleted, orderID := "o1",
               subscriptionRef := sub, amountCents := 900, currency := "USD" } 20,
    .userCancelSubscription (fun _ => none) (some ⟨"u1", "w1", "mail"⟩) "w1" 30,
    .ofEvent { channel := "paypal", channelEventID := "e2", type := .refundCreated, orderID := "o1",
               subscriptionRef := sub } 40]

theorem marks_cleared_subscription : ∃ row,
    (serveAll (smallWorld 5) (boughtAndRefunded "s1") (smallDb 0)).workspace "w1" = some row ∧
      row.planCode = "free" ∧ row.cancelRequestedAt = none ∧ row.planExpiresAt = none := by
  obtain ⟨past, hrun⟩ := @completes_serveAll Request.ClearsRefund (smallWorld 5) (boughtAndRefunded "s1")
    (smallDb 0) (by
      intro rq hrq
      simp only [boughtAndRefunded, List.mem_cons, List.not_mem_nil, or_false] at hrq
      -- The refund is the last request, and it names the subscription.
      rcases hrq with rfl | rfl | rfl | rfl
      · exact ⟨trivial, fun _ _ he => nomatch he⟩
      · exact ⟨trivial, fun _ e he _ htype => by cases he; cases htype⟩
      · exact ⟨trivial, fun _ _ he => nomatch he⟩
      · exact ⟨trivial, fun _ e he _ _ hsub => by cases he; exact absurd hsub (by decide)⟩)
  have hrow : ((serveAll (smallWorld 5) (boughtAndRefunded "s1") (smallDb 0)).workspace "w1").map
      (fun row => (row.planCode, row.subscriptionRef)) = some ("free", none) := by decide
  obtain ⟨row, hws, hcols⟩ := Option.map_eq_some_iff.1 hrow
  obtain ⟨hplan, hsub⟩ := Prod.ext_iff.1 hcols
  exact ⟨row, hws, hplan, (marks_cleared (smallDb_installed 0) hrun).1 "w1" row hws hplan hsub⟩

/-- The refund of an order that is no subscription leaves the cancel request. -/
theorem refund_keeps_mark : ∃ db₀ past db id row, Installed db₀ ∧
    Run (Completes fun _ _ => True) db₀ past db ∧ db.workspace id = some row ∧
    row.planCode = "free" ∧ row.subscriptionRef = none ∧ row.cancelRequestedAt ≠ none := by
  obtain ⟨past, hrun⟩ := @completes_serveAll (fun _ _ => True) (smallWorld 5) (boughtAndRefunded "")
    (smallDb 0) (by
      intro rq hrq
      simp only [boughtAndRefunded, List.mem_cons, List.not_mem_nil, or_false] at hrq
      rcases hrq with rfl | rfl | rfl | rfl <;> exact ⟨trivial, fun _ => trivial⟩)
  have hrow : ((serveAll (smallWorld 5) (boughtAndRefunded "") (smallDb 0)).workspace "w1").map
      (fun row => (row.planCode, row.subscriptionRef, row.cancelRequestedAt))
      = some ("free", none, some 30) := by decide
  obtain ⟨row, hws, hcols⟩ := Option.map_eq_some_iff.1 hrow
  obtain ⟨hplan, hcols⟩ := Prod.ext_iff.1 hcols
  obtain ⟨hsub, hmark⟩ := Prod.ext_iff.1 hcols
  exact ⟨smallDb 0, past, _, "w1", row, smallDb_installed 0, hrun, hws, hplan, hsub,
    fun h => nomatch h.symm.trans hmark⟩

end Ploykit.Billing

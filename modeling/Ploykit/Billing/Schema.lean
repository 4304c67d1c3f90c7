import Ploykit.Billing.Requests

/-!
# Foreign keys

The plan and the workspace of an order exist, and so do the plan of a workspace
and the free plan. Handlers rely on that: a downgrade and the grant of a paid
order cannot be refused by the database.
-/

namespace Ploykit.Billing

open Lib Script

structure Db.Consistent (db : Db) : Prop where
  free : (db.plan "free").isSome
  orderPlan : ∀ id o, db.order id = some o → (db.plan o.planCode).isSome
  orderWorkspace : ∀ id o, db.order id = some o → (db.workspace o.workspaceID).isSome
  workspacePlan : ∀ id w, db.workspace id = some w → (db.plan w.planCode).isSome

/-- The columns that no UPDATE of `order` names. -/
structure OrderRow.SameSale (o o' : OrderRow) : Prop where
  workspaceID : o'.workspaceID = o.workspaceID
  planCode : o'.planCode = o.planCode
  interval : o'.interval = o.interval
  amountCents : o'.amountCents = o.amountCents
  currency : o'.currency = o.currency
  channel : o'.channel = o.channel

theorem OrderRow.SameSale.refl (o : OrderRow) : o.SameSale o := ⟨rfl, rfl, rfl, rfl, rfl, rfl⟩

theorem OrderRow.SameSale.trans {o o' o'' : OrderRow} (h : o.SameSale o') (h' : o'.SameSale o'') :
    o.SameSale o'' where
  workspaceID := h'.workspaceID.trans h.workspaceID
  planCode := h'.planCode.trans h.planCode
  interval := h'.interval.trans h.interval
  amountCents := h'.amountCents.trans h.amountCents
  currency := h'.currency.trans h.currency
  channel := h'.channel.trans h.channel

/-- The tables change, and every plan, every workspace and what an order has been
created with stay. -/
structure Db.Grows (db db' : Db) : Prop where
  plans : db'.plans = db.plans
  workspaces : ∀ id, (db'.workspace id).isSome = (db.workspace id).isSome
  orders : ∀ id o, db.order id = some o → ∃ o', db'.order id = some o' ∧ o.SameSale o'
  newOrders : ∀ id o', db.order id = none → db'.order id = some o' →
    (db.plan o'.planCode).isSome ∧ (db.workspace o'.workspaceID).isSome
  newPlans : ∀ id w', db'.workspace id = some w' →
    (∃ w, db.workspace id = some w ∧ w'.planCode = w.planCode) ∨ (db.plan w'.planCode).isSome ∨
      w'.planCode = "free"

namespace Db.Grows

variable {db db' db'' : Db}

theorem plan_eq (h : db.Grows db') (code : String) : db'.plan code = db.plan code := by
  rw [plan, h.plans]
  rfl

theorem consistent (h : db.Grows db') (hdb : db.Consistent) : db'.Consistent := by
  have horder : ∀ id o', db'.order id = some o' →
      (db.plan o'.planCode).isSome ∧ (db.workspace o'.workspaceID).isSome := by
    intro id o' ho'
    cases ho : db.order id with
    | none => exact h.newOrders id o' ho ho'
    | some o =>
      obtain ⟨o₁, ho₁, hsale⟩ := h.orders id o ho
      cases ho₁.symm.trans ho'
      rw [hsale.planCode, hsale.workspaceID]
      exact ⟨hdb.orderPlan id o ho, hdb.orderWorkspace id o ho⟩
  refine ⟨by rw [h.plan_eq]; exact hdb.free, fun id o' ho' => ?_, fun id o' ho' => ?_, fun id w' hw' => ?_⟩
  · rw [h.plan_eq]
    exact (horder id o' ho').1
  · rw [h.workspaces]
    exact (horder id o' ho').2
  · rw [h.plan_eq]
    rcases h.newPlans id w' hw' with ⟨w, hw, hcode⟩ | hcode | hcode
    · exact hcode ▸ hdb.workspacePlan id w hw
    · exact hcode
    · exact hcode ▸ hdb.free

theorem trans (h : db.Grows db') (h' : db'.Grows db'') : db.Grows db'' where
  plans := h'.plans.trans h.plans
  workspaces id := (h'.workspaces id).trans (h.workspaces id)
  orders id o ho := by
    obtain ⟨o', ho', hsale⟩ := h.orders id o ho
    obtain ⟨o'', ho'', hsale'⟩ := h'.orders id o' ho'
    exact ⟨o'', ho'', hsale.trans hsale'⟩
  newOrders id o'' ho ho'' := by
    cases ho' : db'.order id with
    | none =>
      obtain ⟨hplan, hws⟩ := h'.newOrders id o'' ho' ho''
      exact ⟨h.plan_eq _ ▸ hplan, h.workspaces _ ▸ hws⟩
    | some o' =>
      obtain ⟨o₁, ho₁, hsale⟩ := h'.orders id o' ho'
      cases ho₁.symm.trans ho''
      rw [hsale.planCode, hsale.workspaceID]
      exact h.newOrders id o' ho ho'
  newPlans id w'' hw'' := by
    rcases h'.newPlans id w'' hw'' with ⟨w', hw', hcode⟩ | hcode | hcode
    · rw [hcode]
      exact h.newPlans id w' hw'
    · exact .inr (.inl (h.plan_eq _ ▸ hcode))
    · exact .inr (.inr hcode)

theorem of_orders (hplans : db'.plans = db.plans) (hws : db'.workspaces = db.workspaces)
    (horders : ∀ id o, db.order id = some o → ∃ o', db'.order id = some o' ∧ o.SameSale o')
    (hnew : ∀ id o', db.order id = none → db'.order id = some o' →
      (db.plan o'.planCode).isSome ∧ (db.workspace o'.workspaceID).isSome) : db.Grows db' where
  plans := hplans
  workspaces id := by rw [workspace, hws]; rfl
  orders := horders
  newOrders := hnew
  newPlans id w' hw' := by
    rw [workspace, hws] at hw'
    exact .inl ⟨w', hw', rfl⟩

theorem refl (hplans : db'.plans = db.plans) (hws : db'.workspaces = db.workspaces)
    (horders : db'.orders = db.orders) : db.Grows db' :=
  .of_orders hplans hws
    (fun id o ho => ⟨o, by rw [order, horders]; exact ho, .refl o⟩)
    fun id o' ho ho' => by
      rw [order, horders] at ho'
      cases ho.symm.trans ho'

theorem of_updateOrders {ids : List String} (f : OrderRow → OrderRow) (hf : ∀ o, (f o).id = o.id)
    (hsale : ∀ o : OrderRow, o.SameSale (f o)) (hplans : db'.plans = db.plans)
    (hws : db'.workspaces = db.workspaces) (h : db'.orders = db.orders.update ids f hf) :
    db.Grows db' := by
  refine .of_orders hplans hws (fun id o ho => ?_) fun id o' ho ho' => ?_
  · rw [order, h, Keyed.get_update]
    split
    · exact ⟨f o, congrArg _ ho, hsale o⟩
    · exact ⟨o, ho, .refl o⟩
  · rw [order] at ho
    rw [order, h, Keyed.get_update, ho] at ho'
    split at ho' <;> cases ho'

theorem of_updateWorkspaces {ids : List String} (f : Workspace → Workspace)
    (hf : ∀ w, (f w).id = w.id) (hplans : db'.plans = db.plans) (horders : db'.orders = db.orders)
    (hcode : ∀ w, (f w).planCode = w.planCode ∨ (db.plan (f w).planCode).isSome ∨
      (f w).planCode = "free")
    (h : db'.workspaces = db.workspaces.update ids f hf) : db.Grows db' where
  plans := hplans
  workspaces id := by
    rw [workspace, h, Keyed.get_update]
    split
    · rw [Option.isSome_map]
      rfl
    · rfl
  orders id o ho := ⟨o, by rw [order, horders]; exact ho, .refl o⟩
  newOrders id o' ho ho' := by
    rw [order, horders] at ho'
    cases ho.symm.trans ho'
  newPlans id w' hw' := by
    rw [workspace, h, Keyed.get_update] at hw'
    split at hw'
    · obtain ⟨w, hw, rfl⟩ := Option.map_eq_some_iff.1 hw'
      exact (hcode w).imp_left fun hcode => ⟨w, hw, hcode⟩
    · exact .inl ⟨w', hw', rfl⟩

theorem of_insertOrder {o : OrderRow} : db.Grows (db.insertOrder o).2 := by
  unfold insertOrder
  cases hcheck : db.checkOrder o with
  | some err => exact .refl rfl rfl rfl
  | none =>
    have hkeys : (db.plan o.planCode).isSome ∧ (db.workspace o.workspaceID).isSome := by
      unfold checkOrder at hcheck
      split at hcheck
      · simp_all
      · split at hcheck
        · cases hcheck
        · split at hcheck
          · cases hcheck
          · simp_all [Option.isSome_iff_ne_none]
    simp only []
    split
    · rename_i hnone
      refine .of_orders rfl rfl (fun id o₁ ho₁ => ⟨o₁, ?_, .refl o₁⟩) fun id o' ho ho' => ?_
      · have hne : o.id ≠ id := by
          rintro rfl
          cases hnone.symm.trans ho₁
        rw [order, Keyed.get_insert, if_neg hne]
        exact ho₁
      · rw [order, Keyed.get_insert] at ho'
        split at ho'
        · cases ho'
          exact hkeys
        · cases ho.symm.trans ho'
    · exact .refl rfl rfl rfl

theorem of_guarded {id : String} {cur : OrderStatus} (h : db.Grows db') :
    db.Grows (Op.guarded db id cur db').2 := by
  unfold Op.guarded
  split
  · split
    · exact h
    · exact .refl rfl rfl rfl
  · exact .refl rfl rfl rfl

/-- Every call. -/
theorem of_exec (w : World) {β : Type} (op : Op β) (db : Db) : db.Grows (op.exec w db).2 := by
  have order {id : String} {db' : Db} (f : OrderRow → OrderRow) (hf : ∀ o, (f o).id = o.id)
      (hsale : ∀ o : OrderRow, o.SameSale (f o))
      (hdb' : db'.plans = db.plans ∧ db'.workspaces = db.workspaces ∧
        db'.orders = db.orders.update [id] f hf) : db.Grows db' :=
    .of_updateOrders f hf hsale hdb'.1 hdb'.2.1 hdb'.2.2
  cases op with
  | createOrder o => exact .of_insertOrder
  | updateOrderStatus id cur next now =>
    exact .of_guarded (order (.setStatus next now) (fun _ => rfl) (fun _ => ⟨rfl, rfl, rfl, rfl, rfl, rfl⟩)
      ⟨rfl, rfl, rfl⟩)
  | cancelOrder id cur canceledBy now =>
    exact .of_guarded (order (.cancel canceledBy now) (fun _ => rfl) (fun _ => ⟨rfl, rfl, rfl, rfl, rfl, rfl⟩)
      ⟨rfl, rfl, rfl⟩)
  | reviveOrderAfterExpiry id now =>
    simp only [Op.exec]
    split
    · split
      · exact order (.revive now) (fun _ => rfl) (fun _ => ⟨rfl, rfl, rfl, rfl, rfl, rfl⟩) ⟨rfl, rfl, rfl⟩
      · exact .refl rfl rfl rfl
    · exact .refl rfl rfl rfl
  | failOrder o e now =>
    exact .of_guarded (order .fail (fun _ => rfl) (fun _ => ⟨rfl, rfl, rfl, rfl, rfl, rfl⟩) ⟨rfl, rfl, rfl⟩)
  | payOrder id now =>
    exact .of_guarded (order (.pay now) (fun _ => rfl) (fun _ => ⟨rfl, rfl, rfl, rfl, rfl, rfl⟩) ⟨rfl, rfl, rfl⟩)
  | setOrderChannelRefAndExpiry id ref expiresAt =>
    exact order (.setChannelRefAndExpiry ref expiresAt) (fun _ => rfl) (fun _ => ⟨rfl, rfl, rfl, rfl, rfl, rfl⟩)
      ⟨rfl, rfl, rfl⟩
  | setOrderPaymentIntentRef id ref =>
    exact order (.setPaymentIntent ref) (fun _ => rfl) (fun _ => ⟨rfl, rfl, rfl, rfl, rfl, rfl⟩) ⟨rfl, rfl, rfl⟩
  | insertPaymentEvent e =>
    simp only [Op.exec]
    split
    · split <;> exact .refl rfl rfl rfl
    · split <;> exact .refl rfl rfl rfl
  | changeWorkspacePlan ws toPlan actor reason now =>
    simp only [Op.exec]
    split
    · split
      · rename_i hplan
        exact .of_updateWorkspaces (.setPlan toPlan) (fun _ => rfl) rfl rfl
          (fun _ => .inr (.inl hplan)) rfl
      · exact .refl rfl rfl rfl
    · exact .refl rfl rfl rfl
  | setWorkspaceSubscription ws ref expiresAt now =>
    simp only [Op.exec]
    split
    · exact .of_updateWorkspaces (.setSubscription ref expiresAt) (fun _ => rfl) rfl rfl
        (fun _ => .inl rfl) rfl
    · exact .refl rfl rfl rfl
  | setWorkspaceCancelRequested ws now =>
    simp only [Op.exec]
    split
    · exact .of_updateWorkspaces (.requestCancel now) (fun _ => rfl) rfl rfl (fun _ => .inl rfl) rfl
    · exact .refl rfl rfl rfl
  | clearWorkspaceCancelRequested ws =>
    exact .of_updateWorkspaces .clearCancel (fun _ => rfl) rfl rfl (fun _ => .inl rfl) rfl
  | expireDueWorkspaces now limit =>
    exact .of_updateWorkspaces .expire (fun _ => rfl) rfl rfl (fun _ => .inr (.inr rfl)) rfl
  | expireStaleOrders now limit =>
    exact .of_updateOrders (.cancel .expiry now) (fun _ => rfl) (fun _ => ⟨rfl, rfl, rfl, rfl, rfl, rfl⟩)
      rfl rfl rfl
  | insertOverageOrder o =>
    simp only [Op.exec]
    split
    · exact .refl rfl rfl rfl
    · split
      · exact .refl rfl rfl rfl
      · rename_i ws _ _
        have hins := @of_insertOrder db (newOrder w db o ws.createdBy ws.planCode o.metadata)
        split
        · rename_i created db' heq
          rw [heq] at hins
          exact hins
        · rename_i err db' heq
          rw [heq] at hins
          exact hins
  | registerChannelProductAtomic channel plan interval price syncedAt =>
    simp only [Op.exec]
    split
    · split <;> exact .refl rfl rfl rfl
    · exact .refl rfl rfl rfl
  | _ => exact .refl rfl rfl rfl

end Db.Grows

theorem Installed.consistent {db : Db} (h : Installed db) : db.Consistent := by
  have hnone : ∀ id, db.order id = none := by simp [Db.order, Keyed.get, Table.get, h.orders]
  refine ⟨h.free, fun id o ho => ?_, fun id o ho => ?_, fun id w hw => ?_⟩
  · cases (hnone id).symm.trans ho
  · cases (hnone id).symm.trans ho
  · rw [(h.workspaces w (Keyed.mem_of_get hw)).1]
    exact h.free

theorem Op.Does.grows {w : World} {may : {β : Type} → Op β → Db → Prop} {β : Type} {op : Op β}
    {db db' : Db} {r : β} (h : op.Does w may db r db') : db.Grows db' := by
  rcases h with hexec | ⟨-, rfl⟩
  · have hgrows := Db.Grows.of_exec w op db
    rwa [show op.exec w db = (r, db') from hexec] at hgrows
  · exact .refl rfl rfl rfl

theorem Db.Grows.of_path {w : World} {may : {β : Type} → Op β → Db → Prop} {α : Type} {m m' : Svc α}
    {db db' : Db} (h : Path (Op.Does w may) m db m' db') : db.Grows db' := by
  induction h with
  | refl m s => exact .refl rfl rfl rfl
  | step h _ ih => exact (Op.Does.grows h).trans ih

theorem Db.Grows.of_sound {w : World} {α : Type} {m m' : Svc α} {db db' : Db}
    (h : Path (Sound (Op.exec w)) m db m' db') : db.Grows db' := by
  induction h with
  | refl m s => exact .refl rfl rfl rfl
  | @step _ o _ s s₁ _ _ _ h _ ih =>
    have hgrows := Db.Grows.of_exec w o s
    rw [show o.exec w s = (_, s₁) from h] at hgrows
    exact hgrows.trans ih

theorem Serves.grows {rq : Request} {db db' : Db} (h : Serves rq db db') : db.Grows db' := by
  obtain ⟨w, m, hpath⟩ := h
  exact .of_path hpath

theorem Reachable.consistent {db : Db} (h : Reachable db) : db.Consistent := by
  obtain ⟨db₀, past, h₀, hrun⟩ := h
  exact hrun.invariant h₀.consistent fun _ _ hdb ⟨_, hserves⟩ => hserves.grows.consistent hdb

end Ploykit.Billing

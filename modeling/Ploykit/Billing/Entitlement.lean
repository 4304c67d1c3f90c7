import Ploykit.Billing.OrderStates
import Ploykit.Billing.FirstPeriod
import Ploykit.Billing.Retry

/-!
# Entitlements

`handlePaid` grants an order from three places: where it pays the order, where it
revives it, and where it finds it paid already. No other webhook grants an order, and
what becomes of the order's row afterwards says whether it can be granted again.
-/

namespace Ploykit.Billing

open Lib Script

/-! ## Later rows -/

/-- What stays true of the row of an order, whatever is served. -/
structure OrderRow.Later (o o' : OrderRow) : Prop where
  terminal : o.Terminal → o'.status = o.status ∧ o'.canceledBy = o.canceledBy
  paid : o.status = .paid → o'.status = .paid ∨ o'.status = .refunded
  sound : o.Sound → o'.Sound

namespace OrderRow.Later

variable {o o' o'' : OrderRow}

theorem refl (o : OrderRow) : o.Later o := ⟨fun _ => ⟨rfl, rfl⟩, .inl, fun ho => ho⟩

theorem trans (h : o.Later o') (h' : o'.Later o'') : o.Later o'' where
  terminal ho := by
    obtain ⟨hstatus, hby⟩ := h.terminal ho
    have ho' : o'.Terminal := by
      unfold Terminal
      rwa [hstatus, hby]
    obtain ⟨hstatus', hby'⟩ := h'.terminal ho'
    exact ⟨hstatus'.trans hstatus, hby'.trans hby⟩
  paid ho := by
    rcases h.paid ho with hpaid | hrefunded
    · exact h'.paid hpaid
    · exact .inr ((h'.terminal (.inr (.inl hrefunded))).1.trans hrefunded)
  sound ho := h'.sound (h.sound ho)

theorem of_moves {β : Type} {op : Op β} (h : o.Moves op o') : o.Later o' where
  terminal ho := h.of_terminal ho
  paid ho := by
    cases h with
    | keep _ hstatus => exact .inl (hstatus.trans ho)
    | pay _ h => cases h.symm.trans ho
    | fail _ h => cases h.symm.trans ho
    | expire _ _ h => cases h.symm.trans ho
    | cancel _ _ h => cases h.symm.trans ho
    | refund _ _ hstatus => exact .inr hstatus
    | revive _ h => cases h.symm.trans ho
  sound ho := h.sound ho

end OrderRow.Later

/-- Every order is still there, and its row is a later one. -/
def Db.Later (db db' : Db) : Prop :=
  ∀ id o, db.order id = some o → ∃ o', db'.order id = some o' ∧ o.Later o'

section

variable {w : World} {may : {β : Type} → Op β → Db → Prop} {db db' db'' : Db} {rq : Request}

theorem Db.Later.refl (db : Db) : db.Later db := fun _ o ho => ⟨o, ho, .refl o⟩

theorem Db.Later.trans (h : db.Later db') (h' : db'.Later db'') : db.Later db'' := by
  intro id o ho
  obtain ⟨o', ho', hlater⟩ := h id o ho
  obtain ⟨o'', ho'', hlater'⟩ := h' id o' ho'
  exact ⟨o'', ho'', hlater.trans hlater'⟩

theorem OrdersMove.of_does {β : Type} {op : Op β} {r : β} (hop : op.Sanctioned)
    (h : op.Does w may db r db') : OrdersMove op db db' := by
  rcases h with hexec | ⟨-, rfl⟩
  · have hmove := OrdersMove.of_exec w hop db
    rwa [show op.exec w db = (r, db') from hexec] at hmove
  · exact .of_eq rfl

theorem OrdersMove.later {β : Type} {op : Op β} (h : OrdersMove op db db') : db.Later db' := by
  intro id o ho
  obtain ⟨o', ho', hmove⟩ := h.moves id o ho
  exact ⟨o', ho', .of_moves hmove⟩

theorem Db.Later.of_path {α : Type} {m m' : Svc α} (hm : m.Calls Op.Sanctioned)
    (h : Path (Op.Does w may) m db m' db') : db.Later db' :=
  h.relates Db.Later.refl (fun _ _ _ => .trans) (fun _ _ _ _ hop hdoes => (OrdersMove.of_does hop hdoes).later) hm

theorem Request.sanctioned (rq : Request) : rq.script.Calls Op.Sanctioned :=
  rq.issues.mono fun _ => Request.Issues.sanctioned

theorem Serves.later (h : Serves rq db db') : db.Later db' := by
  obtain ⟨w, m, hpath⟩ := h
  exact .of_path rq.sanctioned hpath

/-- The columns of every row of a reachable table agree. -/
theorem Reachable.sound (h : Reachable db) {id : String} {o : OrderRow} (ho : db.order id = some o) :
    o.Sound := by
  obtain ⟨db₀, past, h₀, hrun⟩ := h
  let I : Db → Prop := fun db => ∀ id o, db.order id = some o → o.Sound
  have hinv : I db := by
    refine hrun.invariant (fun id o ho => ?_) fun db db' hdb ⟨rq, w, m, hpath⟩ => ?_
    · simp [Db.order, Keyed.get, Table.get, h₀.orders] at ho
    · refine hpath.invariant (I := I) (fun op s r s' hop hdoes hs id o' ho' => ?_) rq.sanctioned hdb
      have hmove := OrdersMove.of_does hop hdoes
      cases ho : s.order id with
      | none => exact (hmove.new id o' ho ho').sound
      | some o =>
        obtain ⟨o₁, ho₁, hmoves⟩ := hmove.moves id o ho
        cases ho'.symm.trans ho₁
        exact hmoves.sound (hs id o ho)
  exact hinv id o ho

end

/-! ## Sales -/

/-- No workspace changes, and no change of a plan is recorded. -/
structure Db.SameSales (db db' : Db) : Prop where
  workspaces : db'.workspaces = db.workspaces
  events : db'.subscriptionEvents = db.subscriptionEvents

theorem Db.SameSales.refl (db : Db) : db.SameSales db := ⟨rfl, rfl⟩

theorem Db.SameSales.trans {db db' db'' : Db} (h : db.SameSales db') (h' : db'.SameSales db'') :
    db.SameSales db'' := ⟨h'.workspaces.trans h.workspaces, h'.events.trans h.events⟩

def Op.KeepsSales {β : Type} (o : Op β) : Prop := ∀ w (db : Db), db.SameSales (o.exec w db).2

def Op.KeepsOrders {β : Type} (o : Op β) : Prop := ∀ w db, (o.exec w db).2.orders = db.orders

section

variable {w : World} {may : {β : Type} → Op β → Db → Prop} {e : PaymentEvent} {t : Time}
  {s s' db db' : Db} {o cur : OrderRow} {α : Type} {m m' : Svc α} {n : Svc (Except Err Unit)} {rq : Request}

theorem path_sales (hm : m.Calls Op.KeepsSales) (h : Path (Op.Does w may) m s m' s') : s.SameSales s' := by
  refine h.relates Db.SameSales.refl (fun _ _ _ => .trans) (fun o s r s' ho hdoes => ?_) hm
  rcases hdoes with hexec | ⟨-, rfl⟩
  · have hkeep := ho w s
    rwa [show o.exec w s = (r, s') from hexec] at hkeep
  · exact .refl _

theorem path_orders (hm : m.Calls Op.KeepsOrders) (h : Path (Op.Does w may) m s m' s') :
    s'.orders = s.orders := by
  refine h.relates (R := fun s s' : Db => s'.orders = s.orders) (fun _ => rfl)
    (fun s₁ s₂ s₃ (h : s₂.orders = s₁.orders) (h' : s₃.orders = s₂.orders) => h'.trans h)
    (fun o s r s' ho hdoes => ?_) hm
  rcases hdoes with hexec | ⟨-, rfl⟩
  · have hkeep := ho w s
    rwa [show o.exec w s = (r, s') from hexec] at hkeep
  · rfl

theorem keepsSales_processed : (processed e).Calls Op.KeepsSales := ⟨fun _ _ => ⟨rfl, rfl⟩, fun _ => trivial⟩

theorem keepsSales_failEvent {err : Err} : (failEvent e err).Calls Op.KeepsSales :=
  ⟨fun _ _ => ⟨rfl, rfl⟩, fun _ => trivial⟩

/-- The calls of a handler are those that record an error, and those of its going on. -/
theorem calls_orFail_of {P : {β : Type} → Op β → Prop}
    (hmark : ∀ msg, P (.markEventError e.channel e.channelEventID msg)) {r : Except Err α}
    {k : α → Svc (Except Err Unit)} (hk : ∀ a, (k a).Calls P) : (orFail e r k).Calls P := by
  cases r with
  | ok a => exact hk a
  | error err => exact ⟨hmark _, fun _ => trivial⟩

theorem keepsSales_resolveOrder : (resolveOrder e).Calls Op.KeepsSales := by
  have hpi : ∀ pi, (if pi ≠ "" then op (.findOrderByPaymentIntent pi) else ret (.ok none) :
      Svc (Except Err (Option Order))).Calls Op.KeepsSales := fun pi =>
    .ite (fun _ => ⟨fun _ _ => .refl _, fun _ => trivial⟩) fun _ => trivial
  refine .ite (fun _ => ⟨fun _ _ => .refl _, fun _ => trivial⟩) fun _ => .ite (fun _ => ?_) fun _ => hpi _
  refine ⟨fun _ _ => .refl _, fun r => ?_⟩
  rcases r with err | _ | o
  · trivial
  · exact hpi _
  · trivial

theorem keepsOrders_grant {o : Order} : (grant e o t).Calls Op.KeepsOrders := by
  have hfail : ∀ {α : Type} {r : Except Err α} {k : α → Svc (Except Err Unit)},
      (∀ a, (k a).Calls Op.KeepsOrders) → (orFail e r k).Calls Op.KeepsOrders :=
    calls_orFail_of fun _ _ _ => rfl
  have hclear : (clearCancel e o.workspaceID).Calls Op.KeepsOrders :=
    ⟨fun _ _ => rfl, fun _ => hfail fun () => ⟨fun _ _ => rfl, fun _ => trivial⟩⟩
  have hplan : Op.KeepsOrders (.changeWorkspacePlan o.workspaceID o.planCode ("webhook:" ++ e.channel)
      ("order:" ++ o.id) t) := by
    intro w db
    simp only [Op.exec]
    split
    · split <;> rfl
    · rfl
  have hsub : ∀ expiresAt, Op.KeepsOrders (.setWorkspaceSubscription o.workspaceID e.subscriptionRef
      expiresAt t) := by
    intro expiresAt w db
    simp only [Op.exec]
    split <;> rfl
  refine ⟨fun _ _ => rfl, fun _ => hfail fun _ => ⟨hplan, fun _ => hfail fun () => ?_⟩⟩
  refine .ite (fun _ => .bind ⟨fun _ _ => rfl, fun _ => trivial⟩ fun expiresAt => ?_) fun _ => hclear
  exact ⟨hsub expiresAt, fun _ => hfail fun () => hclear⟩

/-! ### Where an order is granted -/

/-- What resolves the order of an event is answered as the tables have it, or not at all. -/
theorem path_resolveOrder {r : Except Err (Option Order)}
    (h : Path (Op.Does w may) (resolveOrder e) s (ret r) s') :
    s' = s ∧ (r = .ok ((s.resolve e).map scanOrder) ∨ ∃ err, r = .error err) := by
  have hfails : FailsFast (Op.exec w) (Op.fails may) (fun n s' => s' = s ∧ ∃ err, n = ret (.error err))
      (resolveOrder e) s := failsFast_resolveOrder fun err => ⟨rfl, err, rfl⟩
  rcases h.failsFast hfails with hsound | ⟨n, s₁, ⟨rfl, err, rfl⟩, hrest⟩
  · have hrun := hsound.eq_run
    rw [run_resolveOrder, Prod.mk.injEq] at hrun
    exact ⟨hrun.2.symm, .inl hrun.1.symm⟩
  · obtain ⟨hr, rfl⟩ := hrest.ret_eq
    exact ⟨rfl, .inr ⟨err, Script.ret.inj hr⟩⟩

/-- The order is granted after it has been found paid, and stays paid. -/
theorem path_grant {o : Order} (h : Path (Op.Does w may) (grant e o t) s n s')
    (hpaid : (s.order o.id).map OrderRow.status = some .paid) :
    (s'.order o.id).map OrderRow.status = some .paid := by
  rw [Db.order, path_orders keepsOrders_grant h]
  exact hpaid

theorem path_notPending (hcur : s.order o.id = some cur)
    (h : Path (Op.Does w may) (notPending e (scanOrder o) t) s n s') :
    s.SameSales s' ∨ cur.Payable ∧ (s'.order o.id).map OrderRow.status = some .paid := by
  rcases h.call_cases with ⟨-, rfl⟩ | ⟨r, s₁, hread, hrest⟩
  · exact .inl (.refl _)
  have hget : (Op.getOrder o.id).exec w s = (.ok (some (scanOrder cur)), s) := by
    rw [Op.exec_getOrder, hcur]
    rfl
  rcases hread with hexec | ⟨⟨-, msg, rfl⟩, rfl⟩
  case inr => exact .inl (path_sales keepsSales_failEvent hrest)
  obtain ⟨rfl, rfl⟩ := Prod.mk.inj (hget.symm.trans hexec)
  simp only [ret_bind, orFail_ok, Option.map_some, scanOrder_status, Option.some.injEq] at hrest
  split at hrest
  · rename_i hpaid
    exact .inr ⟨.inr (.inl hpaid), path_grant hrest (by rw [scanOrder_id, hcur, Option.map_some, hpaid])⟩
  split at hrest
  case isFalse => exact .inl (path_sales keepsSales_processed hrest)
  rename_i hcanceled
  rcases hrest.call_cases with ⟨-, rfl⟩ | ⟨r, s₂, hrevive, hend⟩
  · exact .inl (.refl _)
  rcases hrevive with hexec | ⟨⟨-, msg, rfl⟩, rfl⟩
  case inr => exact .inl (path_sales keepsSales_failEvent hend)
  by_cases hby : cur.canceledBy = some .expiry
  · have hrevived : (Op.reviveOrderAfterExpiry o.id t).exec w s
        = (.ok true, s.updateOrder o.id (.revive t) fun _ => OrderRow.revive_id) := by
      simp only [Op.exec, hcur, hcanceled, hby, and_self, if_true]
    obtain ⟨rfl, rfl⟩ := Prod.mk.inj (hrevived.symm.trans hexec)
    refine .inr ⟨.inr (.inr ⟨hcanceled, hby⟩), path_grant hend ?_⟩
    rw [scanOrder_id, Db.order_updateOrder fun _ => OrderRow.revive_id, hcur]
    rfl
  · have hkept : (Op.reviveOrderAfterExpiry o.id t).exec w s = (.ok false, s) := by
      simp only [Op.exec, hcur, hby, and_false, if_false]
    obtain ⟨rfl, rfl⟩ := Prod.mk.inj (hkept.symm.trans hexec)
    exact .inl (path_sales keepsSales_processed hend)

theorem path_pay (hcur : s.order o.id = some cur)
    (h : Path (Op.Does w may) (pay e (scanOrder o) t) s n s') :
    s.SameSales s' ∨ cur.Payable ∧ (s'.order o.id).map OrderRow.status = some .paid := by
  rcases h.call_cases with ⟨-, rfl⟩ | ⟨r, s₁, hupdate, hrest⟩
  · exact .inl (.refl _)
  rcases hupdate with hexec | ⟨⟨-, msg, rfl⟩, rfl⟩
  case inr => exact .inl (path_sales keepsSales_failEvent hrest)
  by_cases hpending : cur.status = .pending
  · have hpaid := @Op.exec_updateOrderStatus w t s o.id cur .paid hcur
    rw [hpending] at hpaid
    obtain ⟨rfl, rfl⟩ := Prod.mk.inj (hpaid.symm.trans hexec)
    refine .inr ⟨.inl hpending, path_grant hrest ?_⟩
    rw [scanOrder_id, Db.order_updateStatus, hcur]
    rfl
  · have hconflict := @Op.exec_updateOrderStatus_conflict w t s o.id cur .pending .paid hcur hpending
    obtain ⟨rfl, rfl⟩ := Prod.mk.inj (hconflict.symm.trans hexec)
    exact path_notPending hcur hrest

theorem path_handlePaid (h : Path (Op.Does w may) (handlePaid e t) s n s') :
    s.SameSales s' ∨ ∃ o, s.Grants e o ∧ (s'.order o.id).map OrderRow.status = some .paid := by
  rcases h.bind_cases with ⟨m', -, h⟩ | ⟨r, s₁, hresolve, h⟩
  · exact .inl (path_sales keepsSales_resolveOrder h)
  obtain ⟨rfl, rfl | ⟨err, rfl⟩⟩ := path_resolveOrder hresolve
  case inr => exact .inl (path_sales keepsSales_failEvent h)
  cases hres : s₁.resolve e with
  | none =>
    rw [hres] at h
    exact .inl (path_sales keepsSales_processed h)
  | some o =>
    rw [hres] at h
    have ho := Db.resolve_order hres
    simp only [orFail_ok, Option.map_some] at h
    split at h
    case isTrue => exact .inl (path_sales keepsSales_processed h)
    rename_i hmis
    have hamount : amountMismatch (scanOrder o) e = false := by simpa using hmis
    split at h
    case isFalse =>
      rcases path_pay ho h with hsame | ⟨hpay, hpaid⟩
      · exact .inl hsame
      · exact .inr ⟨o, ⟨hres, hamount, hpay⟩, hpaid⟩
    rcases h.call_cases with ⟨-, rfl⟩ | ⟨r, s₂, hanchor, hrest⟩
    · exact .inl (.refl _)
    rcases hanchor with hexec | ⟨⟨-, msg, rfl⟩, rfl⟩
    case inr => exact .inl (path_sales keepsSales_failEvent hrest)
    obtain ⟨rfl, rfl⟩ := Prod.mk.inj (Op.exec_setOrderPaymentIntentRef.symm.trans hexec)
    have hcur : (s₁.setPaymentIntent o.id e.paymentIntentRef).order o.id
        = some (o.setPaymentIntent e.paymentIntentRef) := by
      rw [Db.order_setPaymentIntent, ho]
      rfl
    rcases path_pay hcur hrest with hsame | ⟨hpay, hpaid⟩
    · exact .inl ⟨hsame.workspaces, hsame.events⟩
    · exact .inr ⟨o, ⟨hres, hamount, hpay⟩, hpaid⟩

/-- A delivery changes nothing, or it goes on with the handler of the accepted event. -/
theorem path_received (h : Path (Op.Does w may) (deliver e t) s n s') :
    s' = s ∨ s.Accepts e ∧ Path (Op.Does w may) (handle e t) (s.received e) n s' := by
  rcases h.call_cases with ⟨-, hs⟩ | ⟨r, s₁, hinsert, hrest⟩
  · exact .inl hs
  rcases hinsert with hexec | ⟨⟨-, msg, rfl⟩, rfl⟩
  case inr => exact .inl hrest.ret_eq.2
  by_cases haccept : s.Accepts e
  · obtain ⟨rfl, rfl⟩ := Prod.mk.inj ((Op.exec_insertPaymentEvent haccept).symm.trans hexec)
    exact .inr ⟨haccept, hrest⟩
  · obtain ⟨r₀, hr₀, hrefused⟩ := @Op.exec_insertPaymentEvent_refused w e s haccept
    obtain ⟨rfl, rfl⟩ := Prod.mk.inj (hrefused.symm.trans hexec)
    rcases r₀ with err | _ | _
    · exact .inl hrest.ret_eq.2
    · exact .inl hrest.ret_eq.2
    · exact absurd rfl hr₀

/-- A served event of a completed checkout sells nothing, or it is accepted, pays for an
order and leaves that order paid. -/
theorem Serves.grants (h : Serves rq db db') (he : rq.event = some e) (htype : e.type = .checkoutCompleted) :
    db.SameSales db' ∨ ∃ o, db.Accepts e ∧ db.Grants e o ∧
      (db'.order o.id).map OrderRow.status = some .paid := by
  obtain ⟨w, m, hpath⟩ := h
  obtain ⟨t, hscript⟩ := Request.script_event he
  rw [hscript] at hpath
  rcases path_received hpath with rfl | ⟨haccept, hhandle⟩
  · exact .inl (.refl _)
  obtain ⟨events, hreceived, -⟩ := @Db.received_eq e db
  rw [handle, htype, hreceived] at hhandle
  rcases path_handlePaid hhandle with hsame | ⟨o, hgrants, hpaid⟩
  · exact .inl ⟨hsame.workspaces, hsame.events⟩
  · exact .inr ⟨o, haccept, ⟨hgrants.resolves, hgrants.amount, hgrants.payable⟩, hpaid⟩

end

/-! ### Runs -/

/-- A request that has been served. -/
structure Served where
  request : Request
  before : Db
  after : Db

/-- The served request is an event of a completed checkout of the order, and something
of a workspace or of the record of plans has changed. -/
def Served.Confers (sv : Served) (id : String) : Prop :=
  ∃ e o, sv.request.event = some e ∧ e.type = .checkoutCompleted ∧ sv.before.resolve e = some o ∧
    o.id = id ∧ ¬ sv.before.SameSales sv.after

/-- Requests served one after the other, the latest first, each where `P` holds. -/
inductive Journal (P : Request → Db → Prop) (db₀ : Db) : List Served → Db → Prop
  | start : Journal P db₀ [] db₀
  | next {log : List Served} {db db' : Db} (rq : Request) (h : Journal P db₀ log db) (hrq : P rq db)
      (hserves : Serves rq db db') : Journal P db₀ (⟨rq, db, db'⟩ :: log) db'

/-- No event that is accepted, and that reports the right amount, finds its order paid already. -/
def Request.PaysOnce (rq : Request) (db : Db) : Prop :=
  ∀ e o, rq.event = some e → e.type = .checkoutCompleted → db.Accepts e → db.resolve e = some o →
    amountMismatch (scanOrder o) e = false → o.status ≠ .paid

section

variable {P : Request → Db → Prop} {db₀ db db' : Db} {log : List Served} {rq : Request} {id : String}

/-- What an order is once it has conferred its plan. -/
def Db.Sold (db : Db) (id : String) : Prop :=
  ∃ o, db.order id = some o ∧ (o.status = .paid ∨ o.status = .refunded)

theorem Db.Later.sold (h : db.Later db') (hsold : db.Sold id) : db'.Sold id := by
  obtain ⟨o, ho, hstatus⟩ := hsold
  obtain ⟨o', ho', hlater⟩ := h id o ho
  refine ⟨o', ho', ?_⟩
  rcases hstatus with hpaid | hrefunded
  · exact hlater.paid hpaid
  · exact .inr ((hlater.terminal (.inr (.inl hrefunded))).1.trans hrefunded)

/-- An order that confers its plan is not sold before and is sold after. -/
theorem Served.Confers.sold {sv : Served} (h : sv.Confers id) (hserves : Serves sv.request sv.before sv.after)
    (honce : sv.request.PaysOnce sv.before) : ¬ sv.before.Sold id ∧ sv.after.Sold id := by
  obtain ⟨e, o, he, htype, hres, rfl, hchanged⟩ := h
  rcases hserves.grants he htype with hsame | ⟨o', haccept, hgrants, hpaid⟩
  · exact absurd hsame hchanged
  cases hres.symm.trans hgrants.resolves
  refine ⟨?_, ?_⟩
  · rintro ⟨cur, hcur, hstatus⟩
    cases (Db.resolve_order hres).symm.trans hcur
    rcases hstatus with hpaid | hrefunded
    · exact honce e o he htype haccept hres hgrants.amount hpaid
    · have hpayable := hgrants.payable
      simp [OrderRow.Payable, hrefunded] at hpayable
  · obtain ⟨o', ho', hpaid⟩ := Option.map_eq_some_iff.1 hpaid
    exact ⟨o', ho', .inl hpaid⟩

/-- What a journal says of each of its entries. -/
theorem Journal.entry (h : Journal P db₀ log db) {sv : Served} (hsv : sv ∈ log) :
    P sv.request sv.before ∧ Serves sv.request sv.before sv.after ∧ sv.after.Later db := by
  induction h with
  | start => cases hsv
  | next rq _ hrq hserves ih =>
    rcases List.mem_cons.1 hsv with rfl | hmem
    · exact ⟨hrq, hserves, .refl _⟩
    · obtain ⟨hP, hserved, hlater⟩ := ih hmem
      exact ⟨hP, hserved, hlater.trans hserves.later⟩

/-- In every run in which no event of the right amount finds its order paid already, each
order confers its plan at most once, and an event for a paid order changes no workspace. -/
theorem confers_once (h : Journal Request.PaysOnce db₀ log db) :
    (∀ id, log.Pairwise fun sv sv' => ¬ (sv.Confers id ∧ sv'.Confers id)) ∧
      ∀ sv ∈ log, ∀ e o, sv.request.event = some e → e.type = .checkoutCompleted →
        sv.before.resolve e = some o → o.status = .paid → sv.after.workspaces = sv.before.workspaces := by
  refine ⟨fun id => ?_, fun sv hsv e o he htype hres hpaid => ?_⟩
  · induction h with
    | start => exact .nil
    | next rq hlog honce hserves ih =>
      refine .cons (fun sv hsv hboth => ?_) ih
      obtain ⟨honce', hserved, hlater⟩ := hlog.entry hsv
      have hsold := (hboth.2.sold hserved honce').2
      exact (hboth.1.sold hserves honce).1 (hlater.sold hsold)
  · obtain ⟨honce, hserved, -⟩ := h.entry hsv
    by_contra hchanged
    have hconfers : sv.Confers o.id :=
      ⟨e, o, he, htype, hres, rfl, fun hsame => hchanged hsame.workspaces⟩
    exact (hconfers.sold hserved honce).1 ⟨o, Db.resolve_order hres, .inl hpaid⟩

end

/-! #### An order that is paid twice -/

def Served.of (w : World) (rq : Request) (db : Db) : Served := ⟨rq, db, serve w rq db⟩

def boughtFirst : Served := .of (smallWorld 5) (.buy "w1" .monthly "paypal" 10) (smallDb 0)

def paidFirst : Served := .of (smallWorld 5) (.ofEvent checkoutCompleted 20) boughtFirst.after

theorem confers_once_paidFirst :
    [paidFirst, boughtFirst].Pairwise fun sv sv' => ¬ (sv.Confers "o1" ∧ sv'.Confers "o1") := by
  have hbuy : boughtFirst.request.PaysOnce (smallDb 0) := fun e o he => by cases he
  have hpay : paidFirst.request.PaysOnce boughtFirst.after := by
    intro e o he _ _ hres
    cases he
    have hfirst : boughtFirst.after.resolve checkoutCompleted = some firstOrder := by decide
    cases hfirst.symm.trans hres
    decide
  have hjournal : Journal Request.PaysOnce (smallDb 0) [paidFirst, boughtFirst] paidFirst.after :=
    .next _ (.next _ .start hbuy (serves_serve _ _ _)) hpay (serves_serve _ _ _)
  exact (confers_once hjournal).1 "o1"

/-- The subscription ends. -/
def canceledFirst : Served := .of (smallWorld 5) (.ofEvent cancellationOfFirst 30) paidFirst.after

/-- The payment of the first order is reported again, by another event. -/
def paidAgain : Served :=
  .of (smallWorld 5) (.ofEvent { checkoutCompleted with channelEventID := "e4" } 40) canceledFirst.after

/-- The second event for the order puts the workspace on the plan again that it has left. -/
theorem confers_twice : ∃ db₀ log db, Installed db₀ ∧ Journal (fun _ _ => True) db₀ log db ∧
    (log.filterMap fun sv => sv.request.event.map PaymentEvent.key).Nodup ∧
    ¬ ∀ id, log.Pairwise fun sv sv' => ¬ (sv.Confers id ∧ sv'.Confers id) := by
  have hjournal : Journal (fun _ _ => True) (smallDb 0) [paidAgain, canceledFirst, paidFirst, boughtFirst]
      paidAgain.after :=
    .next _ (.next _ (.next _ (.next _ .start trivial (serves_serve _ _ _)) trivial
      (serves_serve _ _ _)) trivial (serves_serve _ _ _)) trivial (serves_serve _ _ _)
  have hfirst : paidFirst.Confers "o1" := by
    refine ⟨checkoutCompleted, firstOrder, rfl, rfl, by decide, rfl, fun hsame => ?_⟩
    have hplan : paidFirst.after.workspaces.rows.map Workspace.planCode
        ≠ paidFirst.before.workspaces.rows.map Workspace.planCode := by decide
    exact hplan (by rw [hsame.workspaces])
  have hagain : paidAgain.Confers "o1" := by
    have hpaid : (paidAgain.before.resolve { checkoutCompleted with channelEventID := "e4" }).map
        OrderRow.id = some "o1" := by decide
    obtain ⟨o, ho, hid⟩ := Option.map_eq_some_iff.1 hpaid
    refine ⟨_, o, rfl, rfl, ho, hid, fun hsame => ?_⟩
    have hplan : paidAgain.after.workspaces.rows.map Workspace.planCode
        ≠ paidAgain.before.workspaces.rows.map Workspace.planCode := by decide
    exact hplan (by rw [hsame.workspaces])
  refine ⟨smallDb 0, _, _, smallDb_installed 0, hjournal, by decide, fun hall => ?_⟩
  have hpairs := hall "o1"
  rw [List.pairwise_cons] at hpairs
  exact hpairs.1 paidFirst (by simp) ⟨hagain, hfirst⟩

/-! ## Captured money

A delivery that ends without an error has executed the calls it has made, reads of the
plan's trial apart. -/

/-- The workspaces stay on their plans. -/
def Op.KeepsPlans {β : Type} (o : Op β) : Prop :=
  ∀ w db ws, ((o.exec w db).2.workspace ws).map Workspace.planCode = (db.workspace ws).map Workspace.planCode

section

variable {w : World} {may : {β : Type} → Op β → Db → Prop} {e : PaymentEvent} {t : Time}
  {s s' db : Db} {o o' cur : OrderRow} {α : Type} {past : List Db}

theorem not_path_failEvent {err : Err} : ¬ Path (Op.Does w may) (failEvent e err) s (ret (.ok ())) s' := by
  intro h
  obtain ⟨r, s₁, -, hend⟩ := h.call_ret
  exact absurd hend.ret_eq.1 nofun

/-- A call before which an error stops has been executed where the script has ended well. -/
theorem path_orFail_ok {op : Op (Except Err α)} {k : α → Svc (Except Err Unit)}
    (hfailed : ∀ err, op.failed err = .error err)
    (h : Path (Op.Does w may) (.call op fun r => orFail e r k) s (ret (.ok ())) s') :
    ∃ a s₁, op.exec w s = (.ok a, s₁) ∧ Path (Op.Does w may) (k a) s₁ (ret (.ok ())) s' := by
  obtain ⟨r, s₁, hdoes, hrest⟩ := h.call_ret
  rcases hdoes with hexec | ⟨⟨-, msg, rfl⟩, -⟩
  · cases r with
    | ok a => exact ⟨a, s₁, hexec, hrest⟩
    | error err => exact absurd hrest not_path_failEvent
  · rw [hfailed] at hrest
    exact absurd hrest not_path_failEvent

theorem path_plans {β : Type} {m m' : Svc β} (hm : m.Calls Op.KeepsPlans)
    (h : Path (Op.Does w may) m s m' s') (ws : String) :
    (s'.workspace ws).map Workspace.planCode = (s.workspace ws).map Workspace.planCode := by
  refine h.relates (R := fun s s' : Db => (s'.workspace ws).map Workspace.planCode
    = (s.workspace ws).map Workspace.planCode) (fun _ => rfl)
    (fun _ _ _ h h' => h'.trans h) (fun o s r s' ho hdoes => ?_) hm
  rcases hdoes with hexec | ⟨-, rfl⟩
  · have hkeep := ho w s ws
    rwa [show o.exec w s = (r, s') from hexec] at hkeep
  · rfl

theorem keepsPlans_setWorkspaceSubscription {ws ref : String} {x : Time} :
    Op.KeepsPlans (.setWorkspaceSubscription ws ref x t) := by
  intro w db id
  simp only [Op.exec]
  split
  · by_cases hid : id = ws
    · subst hid
      rw [Db.workspace_setSubscription, Option.map_map]
      rfl
    · rw [Db.workspace_setSubscription_ne hid]
  · rfl

theorem keepsPlans_clearWorkspaceCancelRequested {ws : String} :
    Op.KeepsPlans (.clearWorkspaceCancelRequested ws) := by
  intro w db id
  by_cases hid : id = ws
  · subst hid
    rw [Op.exec_clearWorkspaceCancelRequested, Db.workspace_clearCancel, Option.map_map]
    rfl
  · rw [Op.exec_clearWorkspaceCancelRequested]
    exact congrArg _ (Keyed.get_update_ne (fun _ => Workspace.clearCancel_id) hid)

theorem Op.changeWorkspacePlan_ok {ws plan actor reason : String}
    (h : (changeWorkspacePlan ws plan actor reason t).exec w s = (.ok (), s')) :
    (s'.workspace ws).map Workspace.planCode = some plan := by
  simp only [exec] at h
  cases hws : s.workspace ws with
  | none => simp [hws] at h
  | some row =>
    rw [hws] at h
    dsimp only at h
    split at h
    · obtain ⟨-, rfl⟩ := Prod.mk.inj h
      rw [Db.workspace_changePlan, hws]
      rfl
    · simp at h

theorem path_grant_ok {o : Order} (h : Path (Op.Does w may) (grant e o t) s (ret (.ok ())) s') :
    (s'.workspace o.workspaceID).map Workspace.planCode = some o.planCode := by
  obtain ⟨-, s₁, -, h⟩ := path_orFail_ok (fun _ => rfl) h
  obtain ⟨⟨⟩, s₂, hchange, h⟩ := path_orFail_ok (fun _ => rfl) h
  rw [← Op.changeWorkspacePlan_ok hchange]
  refine path_plans ?_ h _
  have hfail : ∀ {r : Except Err Unit} {k : Unit → Svc (Except Err Unit)},
      (∀ a, (k a).Calls Op.KeepsPlans) → (orFail e r k).Calls Op.KeepsPlans :=
    calls_orFail_of fun _ _ _ _ => rfl
  have hclear : (clearCancel e o.workspaceID).Calls Op.KeepsPlans :=
    ⟨keepsPlans_clearWorkspaceCancelRequested, fun _ => hfail fun () => ⟨fun _ _ _ => rfl, fun _ => trivial⟩⟩
  refine .ite (fun _ => .bind ⟨fun _ _ _ => rfl, fun _ => trivial⟩ fun _ => ?_) fun _ => hclear
  exact ⟨keepsPlans_setWorkspaceSubscription, fun _ => hfail fun () => hclear⟩

/-- The order that is left paid, and its workspace on its plan. -/
structure Db.Entitles (db : Db) (o : OrderRow) : Prop where
  paid : (db.order o.id).map OrderRow.status = some .paid
  plan : (db.workspace o.workspaceID).map Workspace.planCode = some o.planCode

theorem path_grant_entitles (h : Path (Op.Does w may) (grant e (scanOrder o) t) s (ret (.ok ())) s')
    (hpaid : (s.order o.id).map OrderRow.status = some .paid) : s'.Entitles o where
  paid := path_grant (o := scanOrder o) h hpaid
  plan := path_grant_ok h

theorem path_notPending_ok (hcur : s.order o.id = some cur) (hpay : cur.Payable) (hne : cur.status ≠ .pending)
    (h : Path (Op.Does w may) (notPending e (scanOrder o) t) s (ret (.ok ())) s') : s'.Entitles o := by
  obtain ⟨found, s₁, hread, h⟩ := path_orFail_ok (fun _ => rfl) h
  have hget : (Op.getOrder o.id).exec w s = (.ok (some (scanOrder cur)), s) := by
    rw [Op.exec_getOrder, hcur]
    rfl
  cases hget.symm.trans hread
  simp only [Option.map_some, scanOrder_status, Option.some.injEq] at h
  rcases hpay with hpending | hpaid | ⟨hcanceled, hby⟩
  · exact absurd hpending hne
  · rw [if_pos hpaid] at h
    exact path_grant_entitles h (by rw [hcur, Option.map_some, hpaid])
  · rw [if_neg (by rw [hcanceled]; nofun), if_pos hcanceled] at h
    obtain ⟨revived, s₂, hrevive, h⟩ := path_orFail_ok (fun _ => rfl) h
    have hrevived : (Op.reviveOrderAfterExpiry o.id t).exec w s
        = (.ok true, s.updateOrder o.id (.revive t) fun _ => OrderRow.revive_id) := by
      simp only [Op.exec, hcur, hcanceled, hby, and_self, if_true]
    cases hrevived.symm.trans hrevive
    refine path_grant_entitles h ?_
    rw [Db.order_updateOrder fun _ => OrderRow.revive_id, hcur]
    rfl

theorem path_pay_ok (hcur : s.order o.id = some cur) (hpay : cur.Payable)
    (h : Path (Op.Does w may) (pay e (scanOrder o) t) s (ret (.ok ())) s') : s'.Entitles o := by
  obtain ⟨r, s₁, hupdate, h⟩ := h.call_ret
  rcases hupdate with hexec | ⟨⟨-, msg, rfl⟩, -⟩
  case inr => exact absurd h not_path_failEvent
  by_cases hpending : cur.status = .pending
  · have hpaid := @Op.exec_updateOrderStatus w t s o.id cur .paid hcur
    rw [hpending] at hpaid
    cases hpaid.symm.trans hexec
    refine path_grant_entitles h ?_
    rw [Db.order_updateStatus, hcur]
    rfl
  · have hconflict := @Op.exec_updateOrderStatus_conflict w t s o.id cur .pending .paid hcur hpending
    cases hconflict.symm.trans hexec
    exact path_notPending_ok hcur hpay hpending h

theorem path_handlePaid_ok (hres : s.resolve e = some o) (hamount : amountMismatch (scanOrder o) e = false)
    (hpay : o.Payable) (h : Path (Op.Does w may) (handlePaid e t) s (ret (.ok ())) s') : s'.Entitles o := by
  obtain ⟨r, s₁, hresolve, h⟩ := h.bind_ret
  obtain ⟨rfl, rfl | ⟨err, rfl⟩⟩ := path_resolveOrder hresolve
  case inr => exact absurd h not_path_failEvent
  have ho := Db.resolve_order hres
  simp only [orFail_ok, hres, Option.map_some, hamount, Bool.false_eq_true, if_false] at h
  split at h
  case isFalse => exact path_pay_ok ho hpay h
  obtain ⟨⟨⟩, s₂, hanchor, h⟩ := path_orFail_ok (fun _ => rfl) h
  cases Op.exec_setOrderPaymentIntentRef.symm.trans hanchor
  have hcur : (s₁.setPaymentIntent o.id e.paymentIntentRef).order o.id
      = some (o.setPaymentIntent e.paymentIntentRef) := by
    rw [Db.order_setPaymentIntent, ho]
    rfl
  exact path_pay_ok hcur hpay h

theorem path_received_ok (haccept : s.Accepts e)
    (h : Path (Op.Does w may) (deliver e t) s (ret (.ok ())) s') :
    Path (Op.Does w may) (handle e t) (s.received e) (ret (.ok ())) s' := by
  obtain ⟨r, s₁, hinsert, h⟩ := h.call_ret
  rcases hinsert with hexec | ⟨⟨-, msg, rfl⟩, -⟩
  · cases (Op.exec_insertPaymentEvent haccept).symm.trans hexec
    exact h
  · exact absurd h.ret_eq.1 nofun

/-- An event of a completed checkout with the right amount is delivered without an error,
and anything is served after it. Unless the order has been refunded or canceled by hand,
it ends paid and its workspace has been put on its plan, if and only if it had not failed. -/
theorem captured_granted_iff (hs : Reachable s) (htype : e.type = .checkoutCompleted)
    (haccept : s.Accepts e) (hres : s.resolve e = some o)
    (hamount : amountMismatch (scanOrder o) e = false)
    (h : Path (Op.Does w anyFails) (deliver e t) s (ret (.ok ())) s')
    (hrun : Run (fun db db' => ∃ rq, Serves rq db db') s' past db) (hend : db.order o.id = some o')
    (hrefund : o'.status ≠ .refunded) (hhand : ¬ o'.CanceledByHand) :
    (o'.status = .paid ∧ (s'.workspace o.workspaceID).map Workspace.planCode = some o.planCode) ↔
      o.status ≠ .failed := by
  have ho := Db.resolve_order hres
  have hdelivered : s.Later s' :=
    .of_path (calls_deliver.mono fun _ => PaymentEvent.Issues.sanctioned) h
  have hserved : s'.Later db :=
    hrun.relates Db.Later.refl (fun _ _ _ => .trans) fun _ _ ⟨_, hserves⟩ => hserves.later
  obtain ⟨o₁, ho₁, hlater⟩ := hdelivered.trans hserved o.id o ho
  cases ho₁.symm.trans hend
  refine ⟨fun ⟨hpaid, _⟩ hfailed => ?_, fun hfailed => ?_⟩
  · cases ((hlater.terminal (.inl hfailed)).1.trans hfailed).symm.trans hpaid
  -- A row that has not failed and does not end refunded or canceled by hand can be paid.
  have hpay : o.Payable := by
    unfold OrderRow.Payable
    cases hstatus : o.status with
    | pending => exact .inl rfl
    | paid => exact .inr (.inl rfl)
    | failed => exact absurd hstatus hfailed
    | refunded => exact absurd ((hlater.terminal (.inr (.inl hstatus))).1.trans hstatus) hrefund
    | canceled =>
      refine .inr (.inr ⟨rfl, ?_⟩)
      by_contra hby
      obtain ⟨by', hsome⟩ := Option.ne_none_iff_exists'.1 ((hs.sound ho).canceledBy.2 hstatus)
      have hkept := (hlater.terminal (.inr (.inr ⟨hstatus, hby⟩))).2
      cases by' with
      | user => exact hhand (.inl (hkept.trans hsome))
      | admin => exact hhand (.inr (hkept.trans hsome))
      | expiry => exact hby hsome
  have hentitles : s'.Entitles o := by
    have hhandle := path_received_ok haccept h
    obtain ⟨events, hreceived, -⟩ := @Db.received_eq e s
    rw [handle, htype, hreceived] at hhandle
    exact path_handlePaid_ok (s := s.withEvents events) hres hamount hpay hhandle
  obtain ⟨o₂, ho₂, hpaid⟩ := Option.map_eq_some_iff.1 hentitles.paid
  obtain ⟨o₃, ho₃, hlater'⟩ := hserved o.id o₂ ho₂
  cases ho₃.symm.trans hend
  exact ⟨(hlater'.paid hpaid).resolve_right hrefund, hentitles.plan⟩

end

/-! #### A payment that has failed first -/

/-- The order is paid, and stays paid when the subscription has ended. -/
theorem captured_granted_iff_paidFirst : ∃ o', canceledFirst.after.order "o1" = some o' ∧
    o'.status = .paid ∧ (paidFirst.after.workspace "w1").map Workspace.planCode = some "pro" := by
  have hend : (canceledFirst.after.order "o1").map OrderRow.status = some .paid := by decide
  obtain ⟨o', ho', hpaid⟩ := Option.map_eq_some_iff.1 hend
  have hhand : (canceledFirst.after.order "o1").bind OrderRow.canceledBy = none := by decide
  rw [ho', Option.bind_some] at hhand
  have haccept : boughtFirst.after.Accepts checkoutCompleted := by decide
  have hfirst : boughtFirst.after.resolve checkoutCompleted = some firstOrder := by decide
  have hok : ((deliver checkoutCompleted 20).run (Op.exec (smallWorld 5)) boughtFirst.after).1 = .ok () := by
    decide
  have hpath := @run_path _ _ _ (Op.Does (smallWorld 5) anyFails) (Op.exec (smallWorld 5))
    (fun o s => Faulty.of_exec o s) (deliver checkoutCompleted 20) boughtFirst.after
  rw [hok] at hpath
  refine ⟨o', ho', (captured_granted_iff ((smallDb_installed 0).reachable.next (serves_serve _ _ _)) rfl haccept
    hfirst (by decide) hpath (.next .start ⟨_, serves_serve _ _ _⟩) ho' (by rw [hpaid]; nofun) ?_).2 (by decide)⟩
  rintro (hby | hby) <;> cases hhand.symm.trans hby

/-- The card is refused, and then it is charged. -/
def refusedFirst : Served :=
  .of (smallWorld 5) (.ofEvent { checkoutCompleted with channelEventID := "e0", type := .paymentFailed } 15)
    boughtFirst.after

def paidLate : Served := .of (smallWorld 5) (.ofEvent checkoutCompleted 20) refusedFirst.after

/-- The order that failed once stays failed, though the money is taken. -/
theorem captured_dropped : ∃ s e o t w s' o', Reachable s ∧ e.type = .checkoutCompleted ∧ s.Accepts e ∧
    s.resolve e = some o ∧ amountMismatch (scanOrder o) e = false ∧
    Path (Op.Does w anyFails) (deliver e t) s (ret (.ok ())) s' ∧ s'.order o.id = some o' ∧
    o'.status ≠ .refunded ∧ ¬ o'.CanceledByHand ∧ ¬ (o'.status = .paid ∧
      (s'.workspace o.workspaceID).map Workspace.planCode = some o.planCode) := by
  have hok : ((deliver checkoutCompleted 20).run (Op.exec (smallWorld 5)) refusedFirst.after).1 = .ok () := by
    decide
  have hpath := @run_path _ _ _ (Op.Does (smallWorld 5) anyFails) (Op.exec (smallWorld 5))
    (fun o s => Faulty.of_exec o s) (deliver checkoutCompleted 20) refusedFirst.after
  rw [hok] at hpath
  have hreachable : Reachable refusedFirst.after :=
    ((smallDb_installed 0).reachable.next (serves_serve _ _ _)).next (serves_serve _ _ _)
  have hrefused : refusedFirst.after.resolve checkoutCompleted
      = some { firstOrder with status := .failed } := by decide
  have hkept : paidLate.after.order "o1" = some { firstOrder with status := .failed } := by decide
  refine ⟨refusedFirst.after, checkoutCompleted, _, 20, smallWorld 5, paidLate.after, _, hreachable, rfl,
    by decide, hrefused, by decide, hpath, hkept, by decide, ?_, by decide⟩
  rintro (hby | hby) <;> cases hby

end Ploykit.Billing

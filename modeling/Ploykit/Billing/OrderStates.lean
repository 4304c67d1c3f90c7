import Ploykit.Billing.Requests

/-!
# Order states

Six guarded UPDATE statements of different services race on one row. What any
call of any request does to a row is one `OrderRow.Moves`; the invariants of a
row, and what its history says about `paid_at` and `canceled_by`, follow from
the moves alone.
-/

namespace Ploykit.Billing

open Lib Script

/-! ## Moves of a row -/

/-- The sweep of abandoned checkouts. -/
def Op.IsSweep : {β : Type} → Op β → Prop
  | _, .expireStaleOrders .. => True
  | _, _ => False

/-- A user or an admin cancels the order. -/
def Op.IsCancel (id : String) : {β : Type} → Op β → Prop
  | _, .cancelOrder id' .. => id' = id
  | _, _ => False

/-- What the call `op` may do to a row. -/
inductive OrderRow.Moves {β : Type} (op : Op β) (o o' : OrderRow) : Prop
  | keep (hid : o'.id = o.id) (hstatus : o'.status = o.status) (hpaid : o'.paidAt = o.paidAt)
      (hby : o'.canceledBy = o.canceledBy)
  | pay (hid : o'.id = o.id) (h : o.status = .pending) (hstatus : o'.status = .paid)
      (hpaid : o'.paidAt ≠ none) (hby : o'.canceledBy = o.canceledBy)
  | fail (hid : o'.id = o.id) (h : o.status = .pending) (hstatus : o'.status = .failed)
      (hpaid : o'.paidAt = o.paidAt) (hby : o'.canceledBy = o.canceledBy)
  | expire (hop : op.IsSweep) (hid : o'.id = o.id) (h : o.status = .pending)
      (hstatus : o'.status = .canceled) (hpaid : o'.paidAt = o.paidAt)
      (hby : o'.canceledBy = some .expiry)
  | cancel (hop : op.IsCancel o.id) (hid : o'.id = o.id) (h : o.status = .pending)
      (hstatus : o'.status = .canceled) (hpaid : o'.paidAt = o.paidAt)
      (hby : o'.canceledBy = some .user ∨ o'.canceledBy = some .admin)
  | refund (hid : o'.id = o.id) (h : o.status = .paid) (hstatus : o'.status = .refunded)
      (hpaid : o'.paidAt = o.paidAt) (hby : o'.canceledBy = o.canceledBy)
  | revive (hid : o'.id = o.id) (h : o.status = .canceled) (hexpiry : o.canceledBy = some .expiry)
      (hstatus : o'.status = .paid) (hpaid : o'.paidAt ≠ none) (hby : o'.canceledBy = none)

/-- A row as it is inserted. -/
structure OrderRow.New (o : OrderRow) : Prop where
  status : o.status = .pending
  paidAt : o.paidAt = none
  canceledBy : o.canceledBy = none

/-! ### What the columns of a row say about each other -/

def OrderRow.CanceledByHand (o : OrderRow) : Prop :=
  o.canceledBy = some .user ∨ o.canceledBy = some .admin

/-- `paid_at` is set for paid and refunded orders, `canceled_by` for canceled ones. -/
structure OrderRow.Sound (o : OrderRow) : Prop where
  paidAt : o.paidAt ≠ none ↔ o.status = .paid ∨ o.status = .refunded
  canceledBy : o.canceledBy ≠ none ↔ o.status = .canceled

theorem OrderRow.New.sound {o : OrderRow} (h : o.New) : o.Sound where
  paidAt := by simp [h.paidAt, h.status]
  canceledBy := by simp [h.canceledBy, h.status]

namespace OrderRow.Moves

variable {β : Type} {op : Op β} {o o' : OrderRow}

theorem sound (h : o.Moves op o') (ho : o.Sound) : o'.Sound := by
  obtain ⟨hpaidAt, hcanceledBy⟩ := ho
  cases h with
  | keep _ hstatus hpaid hby => exact ⟨by rw [hpaid, hstatus, hpaidAt], by rw [hby, hstatus, hcanceledBy]⟩
  | pay _ h hstatus hpaid hby => exact ⟨by simp [hpaid, hstatus], by simp [hby, hstatus, hcanceledBy, h]⟩
  | fail _ h hstatus hpaid hby =>
    exact ⟨by simp [hpaid, hstatus, hpaidAt, h], by simp [hby, hstatus, hcanceledBy, h]⟩
  | expire _ _ h hstatus hpaid hby =>
    exact ⟨by simp [hpaid, hstatus, hpaidAt, h], by simp [hby, hstatus]⟩
  | cancel _ _ h hstatus hpaid hby =>
    refine ⟨by simp [hpaid, hstatus, hpaidAt, h], ?_⟩
    rcases hby with hby | hby <;> simp [hby, hstatus]
  | refund _ h hstatus hpaid hby =>
    exact ⟨by simp [hpaid, hstatus, hpaidAt, h], by simp [hby, hstatus, hcanceledBy, h]⟩
  | revive _ _ _ hstatus hpaid hby => exact ⟨by simp [hpaid, hstatus], by simp [hby, hstatus]⟩

/-- `paid_at` is set by a payment and stays. -/
theorem paidAt_iff (h : o.Moves op o') (ho : o.Sound) :
    o'.paidAt ≠ none ↔ o'.status = .paid ∨ o.paidAt ≠ none := by
  obtain ⟨hpaidAt, -⟩ := ho
  cases h with
  | keep _ hstatus hpaid _ => rw [hpaid, hstatus, hpaidAt]; tauto
  | pay _ _ hstatus hpaid _ => simp [hpaid, hstatus]
  | fail _ _ hstatus hpaid _ => simp [hpaid, hstatus]
  | expire _ _ _ hstatus hpaid _ => simp [hpaid, hstatus]
  | cancel _ _ _ hstatus hpaid _ => simp [hpaid, hstatus]
  | refund _ h hstatus hpaid _ => simp [hpaid, hstatus]
  | revive _ _ _ hstatus hpaid _ => simp [hpaid, hstatus]

/-- Only the sweep makes a row one that the sweep has canceled. -/
theorem swept (h : o.Moves op o') (hby : o'.canceledBy = some .expiry) :
    o.canceledBy = some .expiry ∨ op.IsSweep ∧ o.status = .pending ∧ o'.status = .canceled := by
  cases h with
  | keep _ _ _ h => exact .inl (h ▸ hby)
  | pay _ _ _ _ h => exact .inl (h ▸ hby)
  | fail _ _ _ _ h => exact .inl (h ▸ hby)
  | expire hop _ h hstatus _ _ => exact .inr ⟨hop, h, hstatus⟩
  | cancel _ _ _ _ _ h => rcases h with h | h <;> cases h.symm.trans hby
  | refund _ _ _ _ h => exact .inl (h ▸ hby)
  | revive _ _ _ _ _ h => cases h.symm.trans hby

/-- A cancellation by a user or an admin says so. -/
theorem byHand (h : o.Moves op o') (hop : op.IsCancel o.id) (hbefore : o.status ≠ .canceled)
    (hafter : o'.status = .canceled) : o'.CanceledByHand := by
  cases h with
  | keep _ hstatus => exact absurd (hstatus.symm.trans hafter) hbefore
  | pay _ _ hstatus => cases hstatus.symm.trans hafter
  | fail _ _ hstatus => cases hstatus.symm.trans hafter
  | expire hsweep => cases op <;> first | exact hsweep.elim | exact hop.elim
  | cancel _ _ _ _ _ hby => exact hby
  | refund _ _ hstatus => cases hstatus.symm.trans hafter
  | revive _ _ _ hstatus => cases hstatus.symm.trans hafter

end OrderRow.Moves

/-- A row that no call changes any more. -/
def OrderRow.Terminal (o : OrderRow) : Prop :=
  o.status = .failed ∨ o.status = .refunded ∨ o.status = .canceled ∧ o.canceledBy ≠ some .expiry

theorem OrderRow.Moves.of_terminal {β : Type} {op : Op β} {o o' : OrderRow} (h : o.Moves op o')
    (ho : o.Terminal) : o'.status = o.status ∧ o'.canceledBy = o.canceledBy := by
  cases h with
  | keep _ hstatus _ hby => exact ⟨hstatus, hby⟩
  | pay _ h => simp [Terminal, h] at ho
  | fail _ h => simp [Terminal, h] at ho
  | expire _ _ h => simp [Terminal, h] at ho
  | cancel _ _ h => simp [Terminal, h] at ho
  | refund _ h => simp [Terminal, h] at ho
  | revive _ h hexp => simp [Terminal, h, hexp] at ho

/-! ### Moves of the table -/

/-- Every row of the one table moves to the row of the other, and the rows that
are only in the other are new. -/
structure OrdersMove {β : Type} (op : Op β) (db db' : Db) : Prop where
  moves : ∀ id o, db.order id = some o → ∃ o', db'.order id = some o' ∧ o.Moves op o'
  new : ∀ id o', db.order id = none → db'.order id = some o' → o'.New

section moves

variable {β : Type} {op : Op β} {db db' : Db}

theorem OrdersMove.of_eq (h : db'.orders = db.orders) : OrdersMove op db db' where
  moves id o ho := ⟨o, by rw [Db.order, h]; exact ho, .keep rfl rfl rfl rfl⟩
  new id o' ho ho' := by
    rw [Db.order, h] at ho'
    cases ho.symm.trans ho'

/-- The rows with the listed keys are changed. -/
theorem OrdersMove.of_update {ids : List String} (f : OrderRow → OrderRow) (hf : ∀ o, (f o).id = o.id)
    (h : db'.orders = db.orders.update ids f hf)
    (hmove : ∀ o : OrderRow, db.order o.id = some o → o.id ∈ ids → o.Moves op (f o)) : OrdersMove op db db' where
  moves id o ho := by
    have hid := Keyed.key_of_get ho
    rw [Db.order, h, Keyed.get_update]
    by_cases hmem : id ∈ ids
    · rw [if_pos hmem]
      refine ⟨f o, congrArg _ ho, hmove o ?_ (hid ▸ hmem)⟩
      rwa [hid]
    · rw [if_neg hmem]
      exact ⟨o, ho, .keep rfl rfl rfl rfl⟩
  new id o' ho ho' := by
    rw [Db.order] at ho
    rw [Db.order, h, Keyed.get_update, ho] at ho'
    split at ho' <;> cases ho'

theorem OrdersMove.of_insert {o : OrderRow} (hnone : db.orders.get o.id = none)
    (h : db'.orders = db.orders.insert o hnone) (hnew : o.New) : OrdersMove op db db' where
  moves id o₁ ho := by
    have hne : o.id ≠ id := by
      rintro rfl
      cases hnone.symm.trans ho
    exact ⟨o₁, by rw [Db.order, h, Keyed.get_insert, if_neg hne]; exact ho, .keep rfl rfl rfl rfl⟩
  new id o' ho ho' := by
    rw [Db.order, h, Keyed.get_insert] at ho'
    split at ho'
    · cases ho'
      exact hnew
    · cases ho.symm.trans ho'

/-- A guarded update changes a row of the status it asks for. -/
theorem OrdersMove.of_guarded {id : String} {cur : OrderStatus} (f : OrderRow → OrderRow)
    (hf : ∀ o, (f o).id = o.id) (h : db'.orders = db.orders.update [id] f hf)
    (hmove : ∀ o : OrderRow, o.id = id → o.status = cur → o.Moves op (f o)) :
    OrdersMove op db (Op.guarded db id cur db').2 := by
  unfold Op.guarded
  cases ho : db.order id with
  | none => exact .of_eq rfl
  | some o =>
    by_cases hcur : o.status = cur
    · simp only [hcur, if_true]
      refine .of_update f hf h fun o₁ ho₁ hid => ?_
      rw [List.mem_singleton] at hid
      rw [hid, ho] at ho₁
      cases ho₁
      exact hmove o hid hcur
    · simp only [if_neg hcur]
      exact .of_eq rfl

theorem OrdersMove.of_insertOrder {o : OrderRow} (hnew : o.New) :
    OrdersMove op db (db.insertOrder o).2 := by
  unfold Db.insertOrder
  split
  · exact .of_eq rfl
  · split
    · exact .of_insert ‹_› rfl hnew
    · exact .of_eq rfl

end moves

/-! ## The calls of requests -/

/-- The arguments with which requests make the calls that change a status. -/
def Op.Sanctioned : {β : Type} → Op β → Prop
  | _, .createOrder o => o.status = .pending
  | _, .insertOverageOrder o => o.status = .pending
  | _, .updateOrderStatus _ cur next _ =>
    cur = .pending ∧ (next = .paid ∨ next = .failed) ∨ cur = .paid ∧ next = .refunded
  | _, .cancelOrder _ cur canceledBy _ => cur = .pending ∧ canceledBy ≠ .expiry
  | _, _ => True

theorem PaymentEvent.Issues.sanctioned {e : PaymentEvent} {β : Type} {op : Op β}
    (h : e.Issues op) : op.Sanctioned := by
  cases op with
  | updateOrderStatus id cur next now =>
    rcases h with ⟨-, hcur, hnext⟩ | ⟨-, hcur, hnext⟩
    · exact .inl ⟨hcur, .inl hnext⟩
    · exact .inr ⟨hcur, hnext⟩
  | createOrder o => exact h.elim
  | insertOverageOrder o => exact h.elim
  | cancelOrder id cur canceledBy now => exact h.elim
  | _ => trivial

theorem ServiceOp.sanctioned {β : Type} {op : Op β} (h : ServiceOp op) : op.Sanctioned := by
  cases op with
  | updateOrderStatus id cur next now => exact .inl ⟨h.1, .inr h.2⟩
  | createOrder o => exact h
  | insertOverageOrder o => exact h.1
  | cancelOrder id cur canceledBy now => exact h
  | _ => trivial

theorem Request.Issues.sanctioned {rq : Request} {β : Type} {op : Op β} (h : rq.Issues op) :
    op.Sanctioned := by
  unfold Request.Issues at h
  cases he : rq.event with
  | none =>
    rw [he] at h
    exact ServiceOp.sanctioned h
  | some e =>
    rw [he] at h
    exact PaymentEvent.Issues.sanctioned h

/-- Every call that a request can issue moves the rows. -/
theorem OrdersMove.of_exec (w : World) {β : Type} {op : Op β} (h : op.Sanctioned) (db : Db) :
    OrdersMove op db (op.exec w db).2 := by
  cases op with
  | createOrder o => exact .of_insertOrder ⟨h, rfl, rfl⟩
  | updateOrderStatus id cur next now =>
    refine .of_guarded (.setStatus next now) (fun _ => rfl) rfl fun o _ hcur => ?_
    rcases h with ⟨rfl, rfl | rfl⟩ | ⟨rfl, rfl⟩
    · exact .pay rfl hcur rfl nofun rfl
    · exact .fail rfl hcur rfl rfl rfl
    · exact .refund rfl hcur rfl rfl rfl
  | cancelOrder id cur canceledBy now =>
    refine .of_guarded (.cancel canceledBy now) (fun _ => rfl) rfl fun o hid hcur => ?_
    obtain ⟨rfl, hby⟩ := h
    refine .cancel hid.symm rfl hcur rfl rfl ?_
    cases canceledBy with
    | user => exact .inl rfl
    | admin => exact .inr rfl
    | expiry => exact absurd rfl hby
  | reviveOrderAfterExpiry id now =>
    simp only [Op.exec]
    cases ho : db.order id with
    | none => exact .of_eq rfl
    | some o =>
      by_cases hcur : o.status = .canceled ∧ o.canceledBy = some .expiry
      · simp only [if_pos hcur]
        refine .of_update (.revive now) (fun _ => rfl) rfl fun o₁ ho₁ hid => ?_
        rw [List.mem_singleton] at hid
        rw [hid, ho] at ho₁
        cases ho₁
        exact .revive rfl hcur.1 hcur.2 rfl nofun rfl
      · simp only [if_neg hcur]
        exact .of_eq rfl
  | failOrder o e now =>
    exact .of_guarded .fail (fun _ => rfl) rfl fun o _ hcur => .fail rfl hcur rfl rfl rfl
  | payOrder id now =>
    exact .of_guarded (.pay now) (fun _ => rfl) rfl fun o _ hcur => .pay rfl hcur rfl nofun rfl
  | setOrderChannelRefAndExpiry id ref expiresAt =>
    exact .of_update (.setChannelRefAndExpiry ref expiresAt) (fun _ => rfl) rfl
      fun o _ _ => .keep rfl rfl rfl rfl
  | setOrderPaymentIntentRef id ref =>
    exact .of_update (.setPaymentIntent ref) (fun _ => rfl) rfl fun o _ _ => .keep rfl rfl rfl rfl
  | insertPaymentEvent e =>
    simp only [Op.exec]
    split
    · split <;> exact .of_eq rfl
    · split <;> exact .of_eq rfl
  | changeWorkspacePlan ws plan actor reason now =>
    simp only [Op.exec]
    split
    · split <;> exact .of_eq rfl
    · exact .of_eq rfl
  | setWorkspaceSubscription ws ref expiresAt now =>
    simp only [Op.exec]
    split <;> exact .of_eq rfl
  | setWorkspaceCancelRequested ws now =>
    simp only [Op.exec]
    split <;> exact .of_eq rfl
  | expireStaleOrders now limit =>
    refine .of_update (.cancel .expiry now) (fun _ => rfl) rfl fun o ho hid => ?_
    obtain ⟨o', hstale, hid'⟩ := List.mem_map.1 hid
    -- The swept rows are pending rows of the table, and ids are unique.
    have hsort := List.mem_of_mem_take hstale
    rw [List.mem_insertionSort, List.mem_filter] at hsort
    have ho' : db.order o'.id = some o' := Keyed.get_of_mem hsort.1
    rw [hid', ho] at ho'
    cases ho'
    exact .expire trivial rfl (of_decide_eq_true hsort.2).1 rfl rfl rfl
  | insertOverageOrder o =>
    simp only [Op.exec]
    cases hw : db.workspace o.workspaceID with
    | none => exact .of_eq rfl
    | some ws =>
      simp only []
      split
      · exact .of_eq rfl
      · have hrow : (newOrder w db o ws.createdBy ws.planCode o.metadata).New := ⟨h, rfl, rfl⟩
        have hins := @OrdersMove.of_insertOrder _ (.insertOverageOrder o) db _ hrow
        split
        · rename_i created db' heq
          rw [heq] at hins
          exact hins
        · rename_i err db' heq
          rw [heq] at hins
          exact hins
  | registerChannelProductAtomic channel plan interval price syncedAt =>
    simp only [Op.exec]
    split
    · split <;> exact .of_eq rfl
    · exact .of_eq rfl
  | _ => exact .of_eq rfl

/-! ## Steps of the server -/

/-- The server executes a call that satisfies `P`. -/
def Executes (P : {β : Type} → Op β → Prop) (s s' : Server) : Prop :=
  ∃ (i : Nat) (β : Type) (op : Op β) (k : β → Svc (Except Err Unit)) (r : β),
    s.session i = some (.call op k) ∧ P op ∧ machine.step i op s.shared r s'.shared ∧
      s' = s.move i (some (k r)) s'.shared

theorem OrdersMove.of_step {i : Nat} {β : Type} {op : Op β} {r : β} {db db' : Db}
    (h : op.Sanctioned) (hstep : machine.step i op db r db') : OrdersMove op db db' := by
  obtain ⟨w, hexec | ⟨-, hdb⟩⟩ := hstep
  · have hmove := OrdersMove.of_exec w h db
    rw [show op.exec w db = (r, db') from hexec] at hmove
    exact hmove
  · exact .of_eq (congrArg Db.orders hdb)

theorem Executes.moves {P : {β : Type} → Op β → Prop} {s s' : Server}
    (h : Executes P s s') (hs : s.Calls Op.Sanctioned) :
    ∃ (β : Type) (op : Op β), P op ∧ OrdersMove op s.shared s'.shared := by
  obtain ⟨i, β, op, k, r, hi, hop, hstep, -⟩ := h
  exact ⟨β, op, hop, .of_step (hs _ _ hi).1 hstep⟩

/-- A step of the server leaves the tables, or executes one call. -/
theorem Server.Next.cases {s s' : Server} (h : Server.Next s s') (hs : s.Calls Op.Sanctioned) :
    s'.shared = s.shared ∨ ∃ (β : Type) (op : Op β), OrdersMove op s.shared s'.shared ∧
      ∀ P : {β : Type} → Op β → Prop, P op → Executes P s s' := by
  cases h with
  | start _ _ => exact .inl rfl
  | exec hi hstep =>
    exact .inr ⟨_, _, .of_step (hs _ _ hi).1 hstep, fun P hP => ⟨_, _, _, _, _, hi, hP, hstep, rfl⟩⟩
  | finish _ => exact .inl rfl
  | crash _ => exact .inl rfl
  | env henv => exact henv.elim

theorem Server.Next.sanctioned {s s' : Server} (h : Server.Next s s')
    (hs : s.Calls Op.Sanctioned) : s'.Calls Op.Sanctioned := by
  refine Pool.Next.calls h (fun m hm => ?_) hs
  obtain ⟨rq, rfl⟩ := hm
  exact rq.issues.mono fun _ => Request.Issues.sanctioned

/-! ## What the history of an order says -/

/-- In the history, the latest state first, the order has been canceled by a
step that executes a call satisfying `P`. -/
def CanceledIn (P : {β : Type} → Op β → Prop) (hist : List Server) (id : String) : Prop :=
  ∃ s s', [s', s] <:+: hist ∧ Executes P s s' ∧
    (s.shared.order id).map OrderRow.status ≠ some .canceled ∧
    (s'.shared.order id).map OrderRow.status = some .canceled

theorem CanceledIn.tail {P : {β : Type} → Op β → Prop} {hist : List Server} {id : String}
    (h : CanceledIn P hist id) (s : Server) : CanceledIn P (s :: hist) id := by
  obtain ⟨t, t', hinfix, h⟩ := h
  exact ⟨t, t', hinfix.trans (List.suffix_cons s hist).isInfix, h⟩

/-- What a row records of the history of its order. -/
structure Recorded (hist : List Server) (id : String) (o : OrderRow) : Prop where
  sound : o.Sound
  everPaid : o.paidAt ≠ none ↔ ∃ s ∈ hist, (s.shared.order id).map OrderRow.status = some .paid
  swept : o.canceledBy = some .expiry → CanceledIn Op.IsSweep hist id
  byHand : CanceledIn (Op.IsCancel id) hist id → o.CanceledByHand

section step

variable {hist : List Server} {s s' : Server} {id : String} {o o' : OrderRow}

/-- A cancellation by hand is the last step, which the row records, or an earlier one. -/
theorem CanceledIn.byHand (h : CanceledIn (Op.IsCancel id) (s' :: s :: hist) id)
    (hs : s.Calls Op.Sanctioned) (ho : s.shared.order id = some o)
    (ho' : s'.shared.order id = some o') :
    o'.CanceledByHand ∨ CanceledIn (Op.IsCancel id) (s :: hist) id := by
  obtain ⟨t, t', hinfix, hexec, hbefore, hafter⟩ := h
  rcases List.infix_cons_iff.1 hinfix with hprefix | hinfix
  · simp only [List.cons_prefix_cons, List.nil_prefix, and_true] at hprefix
    obtain ⟨ht', ht⟩ := hprefix
    rw [ht] at hexec hbefore
    rw [ht'] at hexec hafter
    obtain ⟨β, op, hop, hmoves⟩ := hexec.moves hs
    obtain ⟨o₁, ho₁, hmove⟩ := hmoves.moves id o ho
    cases ho'.symm.trans ho₁
    rw [ho, Option.map_some, Ne, Option.some.injEq] at hbefore
    rw [ho', Option.map_some, Option.some.injEq] at hafter
    exact .inl (hmove.byHand ((Keyed.key_of_get ho).symm ▸ hop) hbefore hafter)
  · exact .inr ⟨t, t', hinfix, hexec, hbefore, hafter⟩

/-- A row that moves goes on recording the history. -/
theorem Recorded.step {β : Type} {op : Op β} (h : Recorded (s :: hist) id o)
    (ho : s.shared.order id = some o) (ho' : s'.shared.order id = some o') (hmove : o.Moves op o')
    (hop : ∀ P : {β : Type} → Op β → Prop, P op → Executes P s s')
    (hs : s.Calls Op.Sanctioned) : Recorded (s' :: s :: hist) id o' where
  sound := hmove.sound h.sound
  everPaid := by
    rw [hmove.paidAt_iff h.sound, h.everPaid, List.exists_mem_cons_iff _ s', ho']
    simp
  swept hexp := by
    rcases hmove.swept hexp with hexp₀ | ⟨hsweep, hpending, hcanceled⟩
    · exact (h.swept hexp₀).tail s'
    · refine ⟨s, s', ⟨[], hist, rfl⟩, hop Op.IsSweep hsweep, ?_, ?_⟩
      · simp [ho, hpending]
      · simp [ho', hcanceled]
  byHand hc := by
    rcases hc.byHand hs ho ho' with hhand | hc
    · exact hhand
    · have hhand := h.byHand hc
      have hcanceled : o.status = .canceled :=
        h.sound.canceledBy.1 (by rcases hhand with hby | hby <;> simp [hby])
      have hterminal : o.Terminal :=
        .inr (.inr ⟨hcanceled, by rcases hhand with hby | hby <;> simp [hby]⟩)
      unfold OrderRow.CanceledByHand
      rwa [(hmove.of_terminal hterminal).2]

/-- So does a row that stays as it is while the server does something else. -/
theorem Recorded.stay (h : Recorded (s :: hist) id o)
    (hshared : s'.shared = s.shared) : Recorded (s' :: s :: hist) id o where
  sound := h.sound
  everPaid := by
    rw [List.exists_mem_cons_iff _ s', hshared, h.everPaid]
    refine ⟨.inr, ?_⟩
    rintro (hpaid | hpaid)
    · exact ⟨s, List.mem_cons_self, hpaid⟩
    · exact hpaid
  swept hexp := (h.swept hexp).tail s'
  byHand hc := by
    obtain ⟨t, t', hinfix, hexec, hbefore, hafter⟩ := hc
    rcases List.infix_cons_iff.1 hinfix with hprefix | hinfix
    · simp only [List.cons_prefix_cons, List.nil_prefix, and_true] at hprefix
      obtain ⟨ht', ht⟩ := hprefix
      rw [ht', hshared, ← ht] at hafter
      exact absurd hafter hbefore
    · exact h.byHand ⟨t, t', hinfix, hexec, hbefore, hafter⟩

/-- A new row has no history. -/
theorem Recorded.new (h : o.New) (ho : s'.shared.order id = some o)
    (hnone : ∀ t ∈ s :: hist, t.shared.order id = none) : Recorded (s' :: s :: hist) id o := by
  have hcanceled : ∀ P : {β : Type} → Op β → Prop, ¬ CanceledIn P (s' :: s :: hist) id := by
    rintro P ⟨t, t', hinfix, -, -, hafter⟩
    have hmem : t' ∈ s' :: s :: hist := hinfix.subset List.mem_cons_self
    rcases List.mem_cons.1 hmem with rfl | hmem
    · simp [ho, h.status] at hafter
    · simp [hnone t' hmem] at hafter
  refine ⟨h.sound, ?_, by simp [h.canceledBy], fun hc => absurd hc (hcanceled _)⟩
  simp only [h.paidAt, ne_eq, not_true_eq_false, false_iff]
  rintro ⟨t, hmem, hpaid⟩
  rcases List.mem_cons.1 hmem with rfl | hmem
  · simp [ho, h.status] at hpaid
  · simp [hnone t hmem] at hpaid

end step

/-- What the history says about an id: its row records it, or there never was a row. -/
def History (hist : List Server) (s : Server) (id : String) : Prop :=
  (∃ o, s.shared.order id = some o ∧ Recorded hist id o) ∨ ∀ t ∈ hist, t.shared.order id = none

theorem History.step {hist : List Server} {s s' : Server} {id : String}
    (h : History (s :: hist) s id) (step : Server.Next s s') (hs : s.Calls Op.Sanctioned) :
    History (s' :: s :: hist) s' id := by
  rcases step.cases hs with hshared | ⟨β, op, hmoves, hop⟩
  · rcases h with ⟨o, ho, hrec⟩ | hnone
    · exact .inl ⟨o, by rw [hshared]; exact ho, hrec.stay hshared⟩
    · refine .inr (List.forall_mem_cons.2 ⟨?_, hnone⟩)
      rw [hshared]
      exact hnone s List.mem_cons_self
  · rcases h with ⟨o, ho, hrec⟩ | hnone
    · obtain ⟨o', ho', hmove⟩ := hmoves.moves id o ho
      exact .inl ⟨o', ho', hrec.step ho ho' hmove hop hs⟩
    · cases ho' : s'.shared.order id with
      | none => exact .inr (List.forall_mem_cons.2 ⟨ho', hnone⟩)
      | some o' =>
        exact .inl ⟨o', ho', .new (hmoves.new id o' (hnone s List.mem_cons_self) ho') ho' hnone⟩

theorem Installed.history {db₀ : Db} (h₀ : Installed db₀) {past : List Server} {s : Server}
    (run : Run Server.Next (Pool.idle db₀) past s) :
    s.Calls Op.Sanctioned ∧ ∀ id, History (s :: past) s id := by
  induction run with
  | start =>
    refine ⟨Pool.calls_idle _, fun id => .inr ?_⟩
    simp [Pool.idle, Db.order, Keyed.get, Table.get, h₀.orders]
  | next _ step ih => exact ⟨step.sanctioned ih.1, fun id => (ih.2 id).step step ih.1⟩

/-! ## The state machine -/

/-- The changes of status that a step may make after the history. -/
inductive StatusChange (hist : List Server) (id : String) : OrderStatus → OrderStatus → Prop
  | pay : StatusChange hist id .pending .paid
  | fail : StatusChange hist id .pending .failed
  | cancel : StatusChange hist id .pending .canceled
  | refund : StatusChange hist id .paid .refunded
  | revive (h : CanceledIn Op.IsSweep hist id) (h' : ¬ CanceledIn (Op.IsCancel id) hist id) :
      StatusChange hist id .canceled .paid

theorem StatusChange.of_moves {hist : List Server} {id : String} {β : Type} {op : Op β}
    {o o' : OrderRow} (h : o.Moves op o') (hrec : Recorded hist id o) :
    o'.status = o.status ∨ StatusChange hist id o.status o'.status := by
  cases h with
  | keep _ hstatus => exact .inl hstatus
  | pay _ h hstatus => exact .inr (h ▸ hstatus ▸ .pay)
  | fail _ h hstatus => exact .inr (h ▸ hstatus ▸ .fail)
  | expire _ _ h hstatus => exact .inr (h ▸ hstatus ▸ .cancel)
  | cancel _ _ h hstatus => exact .inr (h ▸ hstatus ▸ .cancel)
  | refund _ h hstatus => exact .inr (h ▸ hstatus ▸ .refund)
  | revive _ h hexp hstatus =>
    rw [h, hstatus]
    refine .inr (.revive (hrec.swept hexp) fun hc => ?_)
    have := hrec.byHand hc
    simp [OrderRow.CanceledByHand, hexp] at this

/-- A row that no call changes any more keeps its status in every further run. -/
theorem OrderRow.Terminal.run {s s' : Server} {past : List Server} {id : String} {o : OrderRow}
    (h : o.Terminal) (ho : s.shared.order id = some o) (hs : s.Calls Op.Sanctioned)
    (run : Run Server.Next s past s') : (s'.shared.order id).map OrderRow.status = some o.status := by
  have hinv : s'.Calls Op.Sanctioned ∧ ∃ o', s'.shared.order id = some o' ∧
      o'.status = o.status ∧ o'.canceledBy = o.canceledBy := by
    refine @Run.invariant _ _ _ _ _ (fun t : Server => t.Calls Op.Sanctioned ∧
      ∃ o', t.shared.order id = some o' ∧ o'.status = o.status ∧ o'.canceledBy = o.canceledBy)
      run ⟨hs, o, ho, rfl, rfl⟩ ?_
    rintro t t' ⟨ht, o₁, ho₁, hstatus, hby⟩ step
    refine ⟨step.sanctioned ht, ?_⟩
    rcases step.cases ht with hshared | ⟨β, op, hmoves, -⟩
    · exact ⟨o₁, by rw [hshared]; exact ho₁, hstatus, hby⟩
    · obtain ⟨o₂, ho₂, hmove⟩ := hmoves.moves id o₁ ho₁
      have hterminal : o₁.Terminal := by
        unfold Terminal
        rwa [hstatus, hby]
      obtain ⟨hstatus', hby'⟩ := hmove.of_terminal hterminal
      exact ⟨o₂, ho₂, hstatus'.trans hstatus, hby'.trans hby⟩
  obtain ⟨-, o', ho', hstatus, -⟩ := hinv
  rw [ho', Option.map_some, hstatus]

/-- The orders of every run and interleaving of requests: a step changes a status
only along the state machine, where a canceled order comes back only if the
sweep canceled it and no one by hand; an order that failed, was refunded or was
canceled by hand never changes status again; and `paid_at` is set for exactly
the orders that have been paid at some time. -/
theorem order_state_machine {db₀ : Db} (h₀ : Installed db₀) {past : List Server} {s : Server}
    (run : Run Server.Next (Pool.idle db₀) past s) {id : String} {o : OrderRow}
    (ho : s.shared.order id = some o) :
    (∀ s', Server.Next s s' → ∃ o', s'.shared.order id = some o' ∧
        (o'.status = o.status ∨ StatusChange (s :: past) id o.status o'.status)) ∧
      (o.status = .failed ∨ o.status = .refunded ∨ CanceledIn (Op.IsCancel id) (s :: past) id →
        ∀ past' s', Run Server.Next s past' s' →
          (s'.shared.order id).map OrderRow.status = some o.status) ∧
      (o.paidAt ≠ none ↔
        ∃ t ∈ s :: past, (t.shared.order id).map OrderRow.status = some .paid) := by
  obtain ⟨hs, hhist⟩ := h₀.history run
  have hrec : Recorded (s :: past) id o := by
    rcases hhist id with ⟨o₁, ho₁, hrec⟩ | hnone
    · cases ho.symm.trans ho₁
      exact hrec
    · cases ho.symm.trans (hnone s List.mem_cons_self)
  refine ⟨fun s' step => ?_, fun hend past' s' run' => ?_, hrec.everPaid⟩
  · rcases step.cases hs with hshared | ⟨β, op, hmoves, -⟩
    · exact ⟨o, by rw [hshared]; exact ho, .inl rfl⟩
    · obtain ⟨o', ho', hmove⟩ := hmoves.moves id o ho
      exact ⟨o', ho', StatusChange.of_moves hmove hrec⟩
  · have hterminal : o.Terminal := by
      rcases hend with h | h | h
      · exact .inl h
      · exact .inr (.inl h)
      · have hhand := hrec.byHand h
        refine .inr (.inr ⟨hrec.sound.canceledBy.1 ?_, ?_⟩)
        · rcases hhand with hby | hby <;> simp [hby]
        · rcases hhand with hby | hby <;> simp [hby]
    exact hterminal.run ho hs run'

/-- The server serves one checkout after the migrations. -/
theorem order_state_machine_bought : ∃ past s o, Run Server.Next (Pool.idle (smallDb 0)) past s ∧
    s.shared.order "o1" = some o ∧
    (∀ s', Server.Next s s' → ∃ o', s'.shared.order "o1" = some o' ∧
      (o'.status = o.status ∨ StatusChange (s :: past) "o1" o.status o'.status)) ∧
    (o.paidAt ≠ none ↔ ∃ t ∈ s :: past, (t.shared.order "o1").map OrderRow.status = some .paid) := by
  have hpath : Path (machine.step 0) (Request.buy "w1" .monthly "paypal" 10).script (smallDb 0) _ _ :=
    run_path (fun o s => ⟨smallWorld 5, Faulty.of_exec o s⟩) _ _
  obtain ⟨past, hrun⟩ : ∃ past, Run Server.Next (Pool.idle (smallDb 0)) past
      (Pool.idle (serve (smallWorld 5) (.buy "w1" .monthly "paypal" 10) (smallDb 0))) :=
    Pool.serves ⟨_, rfl⟩ hpath
  have hstored : ((serve (smallWorld 5) (.buy "w1" .monthly "paypal" 10) (smallDb 0)).order
      "o1").isSome := by decide
  obtain ⟨o, ho⟩ := Option.isSome_iff_exists.1 hstored
  obtain ⟨hnext, -, hpaid⟩ := order_state_machine (smallDb_installed 0) hrun ho
  exact ⟨past, _, o, hrun, ho, hnext, hpaid⟩

end Ploykit.Billing

import Ploykit.Billing.Handlers

/-!
# Delivery

An event is written down before it is handled, and marked when its handler has come
to an end. A provider that gets no success delivers it again; what happens then
depends on the mark alone.
-/

namespace Ploykit.Billing

open Lib Script

/-! ## How handlers end -/

/-- The script goes on to mark the event as processed, or to record an error, or
returns without error. -/
inductive Concludes (e : PaymentEvent) : Svc (Except Err Unit) → Prop
  | ok {m : Svc (Except Err Unit)} (h : m = ret (.ok ())) : Concludes e m
  | processed {m : Svc (Except Err Unit)} (h : m = processed e) : Concludes e m
  | failEvent {m : Svc (Except Err Unit)} {err : Err} (h : m = failEvent e err) : Concludes e m
  | call {β : Type} {o : Op β} {k : β → Svc (Except Err Unit)} (h : ∀ r, Concludes e (k r)) :
      Concludes e (.call o k)

section

variable {e : PaymentEvent} {o : Order} {now : Time} {ws plan : String} {α : Type}

theorem Concludes.bind {m : Svc α} {f : α → Svc (Except Err Unit)} (h : ∀ a, Concludes e (f a)) :
    Concludes e (m.bind f) := by
  induction m with
  | ret a => exact h a
  | call o k ih => exact .call ih

theorem Concludes.seq {op : Op α} {f : α → Svc (Except Err Unit)} (h : ∀ a, Concludes e (f a)) :
    Concludes e (Script.op op >>= f) := .call h

theorem Concludes.orFail {r : Except Err α} {k : α → Svc (Except Err Unit)}
    (h : ∀ a, Concludes e (k a)) : Concludes e (orFail e r k) := by
  cases r with
  | ok a => exact h a
  | error err => exact .failEvent rfl

theorem Concludes.ite {c : Prop} [Decidable c] {s t : Svc (Except Err Unit)} (hs : Concludes e s)
    (ht : Concludes e t) : Concludes e (if c then s else t) := by
  split
  · exact hs
  · exact ht

theorem concludes_clearCancel : Concludes e (clearCancel e ws) :=
  .seq fun _ => .orFail fun () => .processed rfl

theorem concludes_grant : Concludes e (grant e o now) := by
  refine .seq fun _ => .orFail fun _ => .seq fun _ => .orFail fun () => ?_
  refine .ite (.bind fun _ => .seq fun _ => .orFail fun () => ?_) ?_
  · exact concludes_clearCancel
  · exact concludes_clearCancel

theorem concludes_notPending : Concludes e (notPending e o now) := by
  refine .seq fun _ => .orFail fun _ => .ite concludes_grant (.ite ?_ (.processed rfl))
  exact .seq fun _ => .orFail fun _ => .ite concludes_grant (.processed rfl)

theorem concludes_pay : Concludes e (pay e o now) := by
  refine .seq fun r => ?_
  rcases r with (_ | _ | _) | _
  · exact concludes_notPending
  · exact .failEvent rfl
  · exact .failEvent rfl
  · exact concludes_grant

theorem concludes_handlePaid : Concludes e (handlePaid e now) := by
  refine .bind fun _ => .orFail fun found => ?_
  cases found with
  | none => exact .processed rfl
  | some order =>
    refine .ite (.processed rfl) (.ite ?_ concludes_pay)
    exact .seq fun _ => .orFail fun () => concludes_pay

theorem concludes_handleFailed : Concludes e (handleFailed e now) := by
  refine .bind fun _ => .orFail fun found => ?_
  cases found with
  | none => exact .processed rfl
  | some order =>
    refine .seq fun r => ?_
    rcases r with (_ | _ | _) | _
    · exact .processed rfl
    · exact .failEvent rfl
    · exact .failEvent rfl
    · exact .ok rfl

theorem concludes_revoke : Concludes e (revoke e o now) := by
  refine .seq fun _ => .orFail fun () => .ite ?_ (.processed rfl)
  exact .seq fun _ => .orFail fun () => concludes_clearCancel

theorem concludes_handleRefund : Concludes e (handleRefund e now) := by
  refine .bind fun _ => .orFail fun found => ?_
  cases found with
  | none => exact .processed rfl
  | some order =>
    refine .seq fun r => ?_
    rcases r with (_ | _ | _) | _
    · exact .processed rfl
    · exact .failEvent rfl
    · exact .failEvent rfl
    · exact concludes_revoke

theorem concludes_restorePlan : Concludes e (restorePlan e ws plan now) := by
  refine .ite (.seq fun _ => .orFail fun found => ?_) (.processed rfl)
  cases found with
  | none => exact .processed rfl
  | some o => exact .ite (.seq fun _ => .orFail fun () => .processed rfl) (.processed rfl)

theorem concludes_extend : Concludes e (extend e now) := by
  refine .seq fun _ => .orFail fun found => ?_
  rcases found with _ | ⟨ws, plan⟩
  · exact .processed rfl
  · refine .seq fun _ => .orFail fun _ => .seq fun _ => .orFail fun _ => ?_
    exact .seq fun _ => .orFail fun () => concludes_restorePlan

theorem concludes_reconcile : Concludes e (reconcile e now) :=
  .bind fun _ => .orFail fun _ => .ite (.processed rfl) concludes_extend

theorem concludes_handleRenewed : Concludes e (handleRenewed e now) :=
  .ite (.ite (.seq fun _ => .orFail fun () => concludes_reconcile) concludes_reconcile) concludes_extend

theorem concludes_handleCanceled : Concludes e (handleCanceled e now) := by
  refine .seq fun _ => .orFail fun found => ?_
  rcases found with _ | ⟨ws, plan⟩
  · exact .processed rfl
  · refine .seq fun _ => .orFail fun () => .seq fun _ => .orFail fun () => ?_
    exact concludes_clearCancel

theorem concludes_handle : Concludes e (handle e now) := by
  unfold handle
  cases e.type with
  | checkoutCompleted => exact concludes_handlePaid
  | paymentFailed => exact concludes_handleFailed
  | refundCreated => exact concludes_handleRefund
  | subscriptionRenewed => exact concludes_handleRenewed
  | subscriptionCanceled => exact concludes_handleCanceled
  | other name => exact .processed rfl

/-- A path of such a script stops before its end, or goes through it. -/
theorem Concludes.path {Step : {β : Type} → Op β → Db → β → Db → Prop} {m m' : Svc (Except Err Unit)}
    {db db' : Db} (h : Path Step m db m' db') (hm : Concludes e m) :
    Concludes e m' ∨
      (∃ s, Path Step m db (Billing.processed e) s ∧ Path Step (Billing.processed e) s m' db') ∨
      ∃ err s, Path Step m db (Billing.failEvent e err) s ∧ Path Step (Billing.failEvent e err) s m' db' := by
  induction h with
  | refl m s => exact .inl hm
  | @step δ o k s s₁ s' r m' hstep tail ih =>
    cases hm with
    | ok h => cases h
    | processed h => exact .inr (.inl ⟨s, h ▸ .refl _ _, h ▸ .step hstep tail⟩)
    | @failEvent _ err h => exact .inr (.inr ⟨err, s, h ▸ .refl _ _, h ▸ .step hstep tail⟩)
    | call h =>
      rcases ih (h r) with hc | ⟨t, hfirst, hrest⟩ | ⟨err, t, hfirst, hrest⟩
      · exact .inl hc
      · exact .inr (.inl ⟨t, .step hstep hfirst, hrest⟩)
      · exact .inr (.inr ⟨err, t, .step hstep hfirst, hrest⟩)

end

/-! ## Attempts -/

/-- One delivery of an event: what the process has done when it has ended or stopped. -/
structure Attempt where
  world : World
  event : PaymentEvent
  now : Time
  before : Db
  left : Svc (Except Err Unit)
  after : Db

def Op.IsMarkEventError : {β : Type} → Op β → Prop
  | _, .markEventError .. => True
  | _, _ => False

def Op.IsMarkEventProcessed : {β : Type} → Op β → Prop
  | _, .markEventProcessed .. => True
  | _, _ => False

namespace Attempt

/-- The delivery goes this way, where calls may fail. -/
def Goes (may : {β : Type} → Op β → Db → Prop) (a : Attempt) : Prop :=
  Path (Op.Does a.world may) (deliver a.event a.now) a.before a.left a.after

/-- The handler comes to its end: it returns without error, or all that is left to do
is to mark the event as processed. -/
def Completes (a : Attempt) : Prop :=
  ∃ s n s', (Op.insertPaymentEvent a.event).exec a.world a.before = (.ok true, s) ∧
    Path (Op.Does a.world anyFails) (handle a.event a.now) s n s' ∧
    (n = processed a.event ∨ n = ret (.ok ())) ∧ Path (Op.Does a.world anyFails) n s' a.left a.after

/-- An error is recorded wherever one occurs, and the process does not stop between the
first write of the delivery and its last one. -/
structure Records (a : Attempt) : Prop where
  goes : a.Goes fun o _ => ¬ o.IsMarkEventError
  left : a.left = deliver a.event a.now ∧ a.after = a.before ∨ a.left = processed a.event ∨
    ∃ r, a.left = ret r

end Attempt

/-- Deliveries of events, and other requests in between. -/
inductive Deliveries (db₀ : Db) : List Attempt → Db → Prop
  | start : Deliveries db₀ [] db₀
  | other {as : List Attempt} {db db' : Db} (h : Deliveries db₀ as db) {rq : Request}
      (hrq : rq.event = none) (hserves : Serves rq db db') : Deliveries db₀ as db'
  | attempt {as : List Attempt} (a : Attempt) (h : Deliveries db₀ as a.before)
      (hgoes : a.Goes anyFails) : Deliveries db₀ (a :: as) a.after

/-! ### The rows of events -/

section

variable {db db' : Db} {w : World} {e : PaymentEvent} {k : String × String}

theorem paymentEvent_guarded {id : String} {cur : OrderStatus}
    (h : db'.paymentEvent k = db.paymentEvent k) :
    (Op.guarded db id cur db').2.paymentEvent k = db.paymentEvent k := by
  unfold Op.guarded
  split
  · split
    · exact h
    · rfl
  · rfl

theorem paymentEvent_markEvent_ne {k' : String × String} {s : ProcessStatus} {err : Option String}
    (h : k ≠ k') : (db.markEvent k' s err).paymentEvent k = db.paymentEvent k :=
  Keyed.get_update_ne (fun _ => PaymentEventRow.mark_key) h

/-- What the insertion of an event answers, and what it leaves. -/
theorem Op.insertPaymentEvent_cases (r : Except Err Bool)
    (h : (Op.insertPaymentEvent e).exec w db = (r, db')) :
    (r = .ok true ∧ ∀ k, k ≠ e.key → db'.paymentEvent k = db.paymentEvent k) ∨
      db' = db ∧ r ≠ .ok true ∧ (r = .ok false → ∃ row, db.paymentEvent e.key = some row ∧
        row.processStatus ≠ .error) := by
  by_cases haccept : db.Accepts e
  · rw [Op.exec_insertPaymentEvent haccept, Prod.mk.injEq] at h
    obtain ⟨rfl, rfl⟩ := h
    obtain ⟨events, hrec, hother⟩ := @Db.received_eq e db
    refine .inl ⟨rfl, fun k hk => ?_⟩
    rw [hrec]
    exact hother k hk
  · obtain ⟨r', hr', hexec⟩ := @Op.exec_insertPaymentEvent_refused w e db haccept
    rw [hexec, Prod.mk.injEq] at h
    obtain ⟨rfl, rfl⟩ := h
    refine .inr ⟨rfl, hr', fun hdup => ?_⟩
    subst hdup
    cases hrow : db.paymentEvent e.key with
    | some row =>
      refine ⟨row, rfl, fun herror => haccept ?_⟩
      unfold Db.Accepts
      rw [hrow]
      exact herror
    | none =>
      have hnone : db.paymentEvents.get e.key = none := hrow
      simp only [Op.exec, hnone, dif_pos] at hexec
      split at hexec <;> cases hexec

/-- The delivery of an event leaves the rows of the others. -/
theorem PaymentEvent.Issues.paymentEvent {β : Type} {o : Op β} (h : e.Issues o) (hk : k ≠ e.key) :
    (o.exec w db).2.paymentEvent k = db.paymentEvent k := by
  cases o with
  | insertPaymentEvent e' =>
    obtain rfl : e' = e := h
    cases hexec : (Op.insertPaymentEvent e').exec w db with
    | mk r s =>
      rcases Op.insertPaymentEvent_cases r hexec with ⟨-, hother⟩ | ⟨hdb, -⟩
      · exact hother k hk
      · rw [hdb]
  | markEventProcessed channel id =>
    exact paymentEvent_markEvent_ne fun hkey => hk (hkey.trans h)
  | markEventError channel id err =>
    exact paymentEvent_markEvent_ne fun hkey => hk (hkey.trans h)
  | failOrder o e' now =>
    obtain ⟨rfl, -⟩ := h
    exact paymentEvent_guarded (paymentEvent_markEvent_ne hk)
  | updateOrderStatus => exact paymentEvent_guarded rfl
  | reviveOrderAfterExpiry id now =>
    simp only [Op.exec]
    split
    · split <;> rfl
    · rfl
  | changeWorkspacePlan ws plan actor reason now =>
    simp only [Op.exec]
    split
    · split <;> rfl
    · rfl
  | setWorkspaceSubscription ws ref expiresAt now =>
    simp only [Op.exec]
    split <;> rfl
  | getOrder => rfl
  | findOrderByChannelRef => rfl
  | findOrderByPaymentIntent => rfl
  | getPlan => rfl
  | getWorkspacePlan => rfl
  | findWorkspaceBySubscription => rfl
  | getWorkspaceCancelRequested => rfl
  | latestPaidOrderInterval => rfl
  | setOrderPaymentIntentRef => rfl
  | clearWorkspaceCancelRequested => rfl
  | _ => exact h.elim

/-- Requests that are no webhooks leave all of them. -/
theorem ServiceOp.paymentEvents {β : Type} {o : Op β} (h : ServiceOp o) :
    (o.exec w db).2.paymentEvents = db.paymentEvents := by
  have hguarded : ∀ id cur (db' : Db), db'.paymentEvents = db.paymentEvents →
      (Op.guarded db id cur db').2.paymentEvents = db.paymentEvents := by
    intro id cur db' hdb'
    unfold Op.guarded
    split
    · split
      · exact hdb'
      · rfl
    · rfl
  have hinsert : ∀ row, (db.insertOrder row).2.paymentEvents = db.paymentEvents := by
    intro row
    unfold Db.insertOrder
    split
    · rfl
    · split <;> rfl
  cases o with
  | createOrder order => exact hinsert _
  | updateOrderStatus id cur next now => exact hguarded id cur _ rfl
  | cancelOrder id cur by' now => exact hguarded id cur _ rfl
  | payOrder id now => exact hguarded id .pending _ rfl
  | changeWorkspacePlan ws plan actor reason now =>
    simp only [Op.exec]
    split
    · split <;> rfl
    · rfl
  | setWorkspaceSubscription ws ref expiresAt now =>
    simp only [Op.exec]
    split <;> rfl
  | setWorkspaceCancelRequested ws now =>
    simp only [Op.exec]
    split <;> rfl
  | insertOverageOrder order =>
    simp only [Op.exec]
    split
    · rfl
    · split
      · rfl
      · rename_i ws _ _
        have hins := hinsert (newOrder w db order ws.createdBy ws.planCode order.metadata)
        split
        · rename_i created db' heq
          rwa [heq] at hins
        · rename_i err db' heq
          rwa [heq] at hins
  | registerChannelProductAtomic channel plan interval price syncedAt =>
    simp only [Op.exec]
    split
    · split <;> rfl
    · rfl
  | reviveOrderAfterExpiry => exact h.elim
  | failOrder => exact h.elim
  | setOrderPaymentIntentRef => exact h.elim
  | insertPaymentEvent => exact h.elim
  | markEventProcessed => exact h.elim
  | markEventError => exact h.elim
  | _ => rfl

theorem Serves.paymentEvents {rq : Request} (hrq : rq.event = none) (h : Serves rq db db') :
    db'.paymentEvents = db.paymentEvents := by
  obtain ⟨w, m, hpath⟩ := h
  have hcalls : rq.script.Calls ServiceOp := by
    refine rq.issues.mono fun o ho => ?_
    unfold Request.Issues at ho
    rwa [hrq] at ho
  refine Path.relates (R := fun db db' : Db => db'.paymentEvents = db.paymentEvents) (fun _ => rfl)
    (fun _ _ _ h h' => h'.trans h) (fun o s r s' ho hstep => ?_) hcalls hpath
  rcases hstep with hexec | ⟨-, rfl⟩
  · have hkept := @ServiceOp.paymentEvents s w _ o ho
    rwa [show o.exec w s = (r, s') from hexec] at hkept
  · rfl

end

/-! ### Attempts that record what goes wrong -/

namespace Attempt

variable {a : Attempt} {k : String × String}

theorem paymentEvent_ne {may : {β : Type} → Op β → Db → Prop} {m m' : Svc (Except Err Unit)} {db db' : Db}
    (h : Path (Op.Does a.world may) m db m' db') (hm : m.Calls a.event.Issues) (hk : k ≠ a.event.key) :
    db'.paymentEvent k = db.paymentEvent k := by
  refine Path.relates (R := fun db db' : Db => db'.paymentEvent k = db.paymentEvent k) (fun _ => rfl)
    (fun _ _ _ h h' => h'.trans h) (fun o s r s' ho hstep => ?_) hm h
  rcases hstep with hexec | ⟨-, rfl⟩
  · have hkept := @PaymentEvent.Issues.paymentEvent s a.world a.event k _ o ho hk
    rwa [show o.exec a.world s = (r, s') from hexec] at hkept
  · rfl

theorem failEvent_ne_processed {e : PaymentEvent} {err : Err} : failEvent e err ≠ processed e := by
  intro h
  have hnext : (failEvent e err).Next Op.IsMarkEventError := trivial
  rw [h] at hnext
  exact hnext

/-- The event of such an attempt is handled to the end, or an error is recorded for it,
or nothing happens. -/
theorem Records.cases (h : a.Records) : a.Completes ∨
    (∀ row, a.after.paymentEvent a.event.key = some row → row.processStatus = .error) ∨
    a.after = a.before := by
  have hany : ∀ {m m' : Svc (Except Err Unit)} {db db' : Db},
      Path (Op.Does a.world fun o _ => ¬ o.IsMarkEventError) m db m' db' →
        Path (Op.Does a.world anyFails) m db m' db' := by
    intro m m' db db' hpath
    refine hpath.mono fun o s r s' hdoes => ?_
    exact hdoes.imp_right fun ⟨⟨_, hmsg⟩, hs⟩ => ⟨⟨trivial, hmsg⟩, hs⟩
  rcases h.left with ⟨-, hafter⟩ | hleft
  · exact .inr (.inr hafter)
  rcases h.goes.call_cases with ⟨hstart, hafter⟩ | ⟨r, s, hinsert, hpath⟩
  · exact .inr (.inr hafter)
  rcases hinsert with hexec | ⟨⟨-, msg, rfl⟩, rfl⟩
  case inr => exact .inr (.inr (hpath.ret_eq).2)
  have hexec' : (Op.insertPaymentEvent a.event).exec a.world a.before = (r, s) := hexec
  rcases Op.insertPaymentEvent_cases r hexec' with ⟨rfl, -⟩ | ⟨rfl, hr, -⟩
  case inr =>
    rcases r with err | _ | _
    · exact .inr (.inr (hpath.ret_eq).2)
    · exact .inr (.inr (hpath.ret_eq).2)
    · exact absurd rfl hr
  have hhandle : Path (Op.Does a.world fun o _ => ¬ o.IsMarkEventError) (handle a.event a.now) s
      a.left a.after := hpath
  rcases Concludes.path hhandle concludes_handle with hend | ⟨t, hfirst, hrest⟩ | ⟨err, t, -, hrest⟩
  · -- The attempt has stopped before the event is marked, or needs no mark.
    refine .inl ⟨s, a.left, a.after, hexec', hany hhandle, ?_, .refl _ _⟩
    rcases hleft with hleft | ⟨r, hleft⟩
    · exact .inl hleft
    · rw [hleft] at hend
      cases hend with
      | ok h => exact .inr (hleft.trans h)
      | processed h => exact absurd h nofun
      | failEvent h => exact absurd h nofun
  · exact .inl ⟨s, _, t, hexec', hany hfirst, .inl rfl, hany hrest⟩
  · -- The error is recorded.
    rcases hrest.call_cases with ⟨hleft', -⟩ | ⟨r, u, hmark, hret⟩
    · rcases hleft with hleft | ⟨r, hleft⟩
      · exact absurd (hleft'.symm.trans hleft) failEvent_ne_processed
      · exact absurd (hleft'.symm.trans hleft) nofun
    · refine .inr (.inl fun row hrow => ?_)
      obtain ⟨-, hafter⟩ := hret.ret_eq
      rcases hmark with hexec | ⟨⟨hmay, -⟩, -⟩
      · have hu : u = t.markEvent a.event.key .error (some err.message) := (Prod.mk.inj hexec).2.symm
        rw [hafter, hu, Db.paymentEvent, Db.markEvent,
          Keyed.get_update_self fun _ => PaymentEventRow.mark_key] at hrow
        obtain ⟨row', -, rfl⟩ := Option.map_eq_some_iff.1 hrow
        rfl
      · exact absurd trivial hmay

theorem Goes.paymentEvent_ne (h : a.Goes anyFails) (hk : k ≠ a.event.key) :
    a.after.paymentEvent k = a.before.paymentEvent k :=
  Attempt.paymentEvent_ne h calls_deliver hk

end Attempt

theorem Attempt.Completes.left {a : Attempt} (h : a.Completes) :
    a.left = processed a.event ∨ ∃ r, a.left = ret r := by
  obtain ⟨-, n, s', -, -, hn, hrest⟩ := h
  rcases hn with rfl | rfl
  · rcases hrest.call_cases with ⟨hleft, -⟩ | ⟨r, t, -, hret⟩
    · exact .inl hleft
    · exact .inr ⟨r, hret.ret_eq.1⟩
  · exact .inr ⟨_, hrest.ret_eq.1⟩

/-- The cancellation of a subscription, delivered to a fresh database. -/
def cancellation : PaymentEvent where
  channel := "paypal"
  channelEventID := "e1"
  type := .subscriptionCanceled
  subscriptionRef := "s1"

/-- The delivery without failures, and the one that stops after the insertion. -/
def handledAttempt : Attempt where
  world := smallWorld 5
  event := cancellation
  now := 10
  before := smallDb 0
  left := ret ((deliver cancellation 10).run (Op.exec (smallWorld 5)) (smallDb 0)).1
  after := delivered (smallWorld 5) cancellation 10 (smallDb 0)

def stoppedAttempt : Attempt where
  world := smallWorld 5
  event := cancellation
  now := 10
  before := smallDb 0
  left := handle cancellation 10
  after := (smallDb 0).received cancellation

end Ploykit.Billing

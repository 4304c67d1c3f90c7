import Ploykit.Quota.Balance
import Ploykit.Quota.Keys

/-!
# Repeated calls

What a call has committed is read off the journal of the run. A call that is
answered as a replay, or refused, has committed nothing; one that is answered
with success has committed its one effect, which claims its key.

`Reserve` answers a repeated key with the reservation that is bound to it, also
after that reservation has ended.
-/

namespace Ploykit.Quota

open Lib Protocol

/-! ## Keys of calls -/

/-- The keys that a call claims when it succeeds. `Reserve` is left out: it may
succeed without a reservation. -/
def Call.keys : Call → List Key
  | .settle id _ _ => [.settle id]
  | .releaseReservation id _ idem => [.release id idem]
  | .consumeWith ws key _ _ idem => (consumeKey idem).toList.map fun k => .consume (ws, key, k)
  | .grant ws key reason ref _ _ | .grantPeriodic ws key reason ref _ _ _ =>
      [.grant (ws, key, reason, ref)]
  | .grantTx ws key reason ref _ _ commits => if commits then [.grant (ws, key, reason, ref)] else []
  | _ => []

/-- The call is answered as one that has been made before. -/
def Reply.replayed : Reply → Bool
  | .reserve res => res.replay
  | .settle res => res.replay
  | .release res => res.replay
  | .consume res => res.replay
  | .unlocked b => !b
  | _ => false

/-- A call with a key has committed its effect, unless it is a replay, and its key
is claimed. -/
theorem Post.once {c : Call} {reply : Reply} {done : List Effect} {db : Db}
    (h : Post c reply done db) (hkeys : c.keys ≠ []) :
    Once c.Commits reply.replayed done ∧ ∀ k ∈ c.keys, db.Claimed k := by
  unfold Post at h
  split at h
  · exact absurd rfl hkeys
  · obtain ⟨honce, r, hr, hid, hstatus, -⟩ := h
    refine ⟨honce, fun k hk => ?_⟩
    obtain rfl := List.mem_singleton.1 hk
    exact ⟨r, hr, hid, hstatus⟩
  · obtain ⟨honce, r, hr, hid, hkey⟩ := h
    refine ⟨honce, fun k hk => ?_⟩
    obtain rfl := List.mem_singleton.1 hk
    exact ⟨r, hr, hid, hkey⟩
  · exact absurd rfl hkeys
  · obtain ⟨honce, -, hclaimed⟩ := h
    refine ⟨honce, fun k hk => ?_⟩
    obtain ⟨k', hk', rfl⟩ := List.mem_map.1 hk
    exact hclaimed k' (by simpa using hk')
  · exact absurd rfl hkeys
  · exact absurd rfl hkeys
  · refine ⟨h.1, fun k hk => ?_⟩
    obtain rfl := List.mem_singleton.1 hk
    exact h.2
  · refine ⟨h.1, fun k hk => ?_⟩
    obtain rfl := List.mem_singleton.1 hk
    exact h.2
  · rename_i commits b
    cases commits with
    | false => exact absurd rfl hkeys
    | true =>
      refine ⟨h.1, fun k hk => ?_⟩
      obtain rfl := List.mem_singleton.1 hk
      exact h.2
  · exact absurd rfl hkeys
  · exact h.elim

/-! ## A consumption with a fresh key -/

/-- Usage and holds leave room for `n` more. -/
structure Db.HasRoom (db : Db) (ck : CounterKey) (n : Int) : Prop where
  granted : Bigint (db.granted ck)
  limit : Bigint (db.limit ck + db.granted ck)
  room : (db.counter ck).used + n + (db.counter ck).reserved ≤ db.limit ck + db.granted ck

theorem Inv.reserved_nonneg {db : Db} (h : Inv db) (ck : CounterKey) :
    0 ≤ (db.counter ck).reserved := by
  rw [h.balance, held_eq_sum]
  refine List.sum_nonneg fun x hx => ?_
  obtain ⟨r, hr, rfl⟩ := List.mem_map.1 hx
  exact heldFor_nonneg (h.rows r hr) ck

section fresh

variable {db : Db} {ck : CounterKey} {n : Int}

/-- The amounts that a consumption with enough room computes are in range. -/
theorem Db.HasRoom.bigint (hroom : db.HasRoom ck n) (h : Inv db) (hn : 0 < n) :
    Bigint n ∧ Bigint ((db.counter ck).used + n) ∧
      Bigint ((db.counter ck).used + n + (db.counter ck).reserved) ∧
      Bigint (db.counter ck).reserved ∧ n ≤ db.limit ck + db.granted ck := by
  have hused := h.used ck
  have hreserved := h.reserved_nonneg ck
  have hlimit := hroom.limit
  have hle := hroom.room
  unfold Bigint at hlimit ⊢
  omega

theorem eval_addUsed_room (hroom : db.HasRoom ck n) (h : Inv db) (hn : 0 < n) {db' : Db}
    (hcounters : db'.counters = db.counters) :
    eval (.addUsed ck n) (fun _ => false) db' = .ok (writes true (.addUsed ck n)) := by
  obtain ⟨hbig, hused, -, hreserved, -⟩ := hroom.bigint h hn
  have hnonneg := h.used ck
  have hzero : Bigint 0 := by decide
  have hinsert : checkCounter ⟨n, 0⟩ = .ok () := checkCounter_ok.2 ⟨hbig, hzero, hn.le⟩
  cases hc : db.counters ck with
  | none => simp [eval, hinsert, hcounters, hc, bind, Except.bind, pure, Except.pure]
  | some c =>
    simp only [Db.counter, hc, Option.getD_some] at hused hreserved hnonneg
    have hupdate : checkCounter { c with used := c.used + n } = .ok () :=
      checkCounter_ok.2 ⟨hused, hreserved, by simp only; omega⟩
    simp [eval, hinsert, hcounters, hc, hupdate, bind, Except.bind, pure, Except.pure]

theorem eval_addUsedWithin_room (hroom : db.HasRoom ck n) (h : Inv db) (hn : 0 < n) {db' : Db}
    (hcounters : db'.counters = db.counters) :
    eval (.addUsedWithin ck n (db.limit ck) (db.granted ck)) (fun _ => false) db'
      = .ok (writes true (.addUsed ck n)) := by
  obtain ⟨hbig, hused, hsum, hreserved, hfit⟩ := hroom.bigint h hn
  have hnonneg := h.used ck
  have hle := hroom.room
  have hzero : Bigint 0 := by decide
  have hlimit : checkBigint (db.limit ck + db.granted ck) = .ok () := checkBigint_ok.2 hroom.limit
  have hinsert : checkCounter ⟨n, 0⟩ = .ok () := checkCounter_ok.2 ⟨hbig, hzero, hn.le⟩
  cases hc : db.counters ck with
  | none => simp [eval, hlimit, hfit, hinsert, hcounters, hc, bind, Except.bind, pure, Except.pure]
  | some c =>
    simp only [Db.counter, hc, Option.getD_some] at hused hsum hreserved hnonneg hle
    have hcheck : checkBigint (c.used + n) = .ok () := checkBigint_ok.2 hused
    have hcheck' : checkBigint (c.used + n + c.reserved) = .ok () := checkBigint_ok.2 hsum
    have hupdate : checkCounter { c with used := c.used + n } = .ok () :=
      checkCounter_ok.2 ⟨hused, hreserved, by simp only; omega⟩
    simp [eval, hlimit, hfit, hinsert, hcounters, hc, hcheck, hcheck', hle, hupdate, bind,
      Except.bind, pure, Except.pure]

theorem sp_consumeOnce (hroom : db.HasRoom ck n) (h : Inv db) (hn : 0 < n) (soft : Bool)
    {tx : Tx Resource Write} (hcounters : (store.applyAll db tx.writes).counters = db.counters)
    (hgrants : (store.applyAll db tx.writes).grants = db.grants)
    {Q : Except (Failure PgErr Webx.Error) Bool → Option (Tx Resource Write) → Db → Prop}
    (hQ : Q (.ok true) (some (tx.add (writes true (.addUsed ck n)))) db) :
    store.sp (consumeOnce ck n (db.limit ck) soft) (some tx) db Q := by
  have hgranted : eval (.sumGrants ck) (fun _ => false) (store.applyAll db tx.writes)
      = .ok (reads (db.granted ck)) := by
    have hcheck : checkBigint (db.granted ck) = .ok () := checkBigint_ok.2 hroom.granted
    have heq : (store.applyAll db tx.writes).granted ck = db.granted ck := by
      simp only [Db.granted, hgrants]
    simp [eval, heq, hcheck, bind, Except.bind, pure, Except.pure]
  refine Store.sp_ite (fun _ => ?_) fun _ => ?_
  · exact Store.sp_query (eval_addUsed_room hroom h hn hcounters) hQ
  · refine Store.sp_bind (Store.sp_query hgranted ?_)
    have htx : tx.add (reads (db.granted ck)) = tx := by simp [Tx.add, reads]
    rw [htx]
    exact Store.sp_query (eval_addUsedWithin_room hroom h hn hcounters) hQ

theorem sp_planLimitsFor {ws : String}
    {Q : Except (Failure PgErr Webx.Error) Plan → Option (Tx Resource Write) → Db → Prop}
    (hQ : Q (.ok (db.planOf ws)) none db) : store.sp (planLimitsFor ws) none db Q := by
  have hplan : eval (.planLimitsFor ws) (fun _ => false) db = .ok (reads (db.plans ws)) := rfl
  refine Store.sp_bind (Store.sp_query_auto hplan ?_)
  simp only [Db.planOf] at hQ
  cases hp : db.plans ws <;> rw [hp] at hQ <;> simp only [reads] <;> exact Store.sp_pure hQ

/-- A consumption whose key has not been claimed, and for which there is room, is
made and claims its key. -/
theorem runSolo_consumeWith {ws key idemKey idem : String} {now : Time}
    (hidem : consumeKey idemKey = some idem) (h : Inv db) (hn : 0 < n)
    (hfree : ¬ db.Claimed (.consume (ws, key, idem))) (hroom : db.HasRoom ⟨ws, period now, key⟩ n) :
    store.runSolo (consumeWith ws key n now idemKey).run db
      = (.ok {}, none, (Effect.consume ⟨ws, period now, key⟩ n (some idem)).apply db) := by
  have htrim : ¬ Strings.trimSpace idemKey = "" := by
    intro htrim
    rw [consumeKey, if_pos htrim] at hidem
    cases hidem
  obtain rfl : Strings.trimSpace idemKey = idem := by
    rw [consumeKey, if_neg htrim] at hidem
    exact Option.some.inj hidem
  set ck : CounterKey := ⟨ws, period now, key⟩ with hck
  set idem := Strings.trimSpace idemKey
  have hinsert : eval (.insertConsumeIdem (consumeRow ck n idem)) (fun _ => false) db
      = .ok (writes true (.insertConsumeIdem (consumeRow ck n idem))) := by
    have hcheck : checkBigint n = .ok () := checkBigint_ok.2 (hroom.bigint h hn).1
    have hkey : (consumeRow ck n idem).key ∉ db.consumeIdems.map ConsumeIdem.key := hfree
    simp only [eval, if_neg hkey]
    simp [consumeRow, hcheck, bind, Except.bind, pure, Except.pure]
  refine Store.sp_run ?_
  unfold consumeWith
  refine Store.sp_ite (fun hle => absurd hn (not_lt.2 hle)) fun _ => ?_
  refine Store.sp_bind (sp_planLimitsFor ?_)
  refine Store.sp_ite (fun hblank => absurd hblank htrim) fun _ => ?_
  refine Store.sp_inTx (Store.sp_bind (Store.sp_query hinsert ?_))
  refine Store.sp_ite (fun _ => ?_) fun hno => absurd rfl hno
  refine Store.sp_bind (sp_consumeOnce hroom h hn _ rfl rfl ?_)
  refine Store.sp_ite (fun _ => ?_) fun hno => absurd rfl hno
  exact Store.sp_bind (Store.sp_commit (Store.sp_pure ⟨rfl, rfl, rfl⟩))

end fresh

/-! ## Every key exactly once -/

/-- Runs in which nothing is called but `calls`. -/
def callPolicy (calls : Call → Prop) : Policy :=
  { openPolicy with commits := fun e => ∃ c, calls c ∧ c.Commits e }

theorem callPolicy_lawful (calls : Call → Prop) : (callPolicy calls).Lawful where
  inv h := h
  plan_refl _ := trivial
  plan_trans _ _ := trivial
  effect h _ he := h.effect he
  plans h _ := h.plans _

/-- In every run of `calls`, and for its journal:
- every commit is an effect of one of the calls;
- the tables are what the committed effects make of the initial ones, every key is
  applied at most once, and the keys that are claimed are those that were claimed
  initially and those of the committed effects;
- a call with a key that succeeds has committed its effect, or nothing if it is a
  replay, and its key is claimed;
- a call that fails has committed its effect or nothing, and nothing if it has
  been refused;
- a consumption whose key is not claimed, and for which there is room, succeeds. -/
theorem keys_applied_once {calls : Call → Prop} {db₀ : Db} (h₀ : Inv db₀)
    {past : List (Pool (TxOp Stmt PgErr) (Store.Sys Db Resource Write) Ended)}
    {p : Pool (TxOp Stmt PgErr) (Store.Sys Db Resource Write) Ended}
    (h : QuotaRun (callPolicy calls) db₀ past p) :
    ∃ (log : List (Nat × Effect)) (cur : Nat → List Effect),
      Journal (protocol (callPolicy calls)) (callPolicy calls).programs db₀ past p log cur ∧
      (∀ c ∈ log, ∃ call, calls call ∧ call.Commits c.2) ∧
      AppliedOnce db₀ (log.map Prod.snd) p.shared.db ∧
      (∀ i c reply, p.session i = some (.ret (c, .ok reply)) → c.keys ≠ [] →
        Once c.Commits reply.replayed (cur i) ∧ ∀ k ∈ c.keys, p.shared.db.Claimed k) ∧
      (∀ i c f, p.session i = some (.ret (c, .error f)) →
        AtMostOnce c.Commits (cur i) ∧ (¬ c.IsReserve → ∀ w, f = .app w → cur i = [])) ∧
      (∀ ws key n now idemKey idem, consumeKey idemKey = some idem → 0 < n →
        ¬ p.shared.db.Claimed (.consume (ws, key, idem)) →
        p.shared.db.HasRoom ⟨ws, period now, key⟩ n →
        store.runSolo (consumeWith ws key n now idemKey).run p.shared.db = (.ok {}, none,
          (Effect.consume ⟨ws, period now, key⟩ n (some idem)).apply p.shared.db)) := by
  have L := callPolicy_lawful calls
  obtain ⟨log, cur, hgood, hjournal⟩ := run_sound L h₀ h
  have htrace := hjournal.trace
  refine ⟨log, cur, hjournal, ?_, trace_appliedOnce L h₀ htrace, ?_, ?_, ?_⟩
  · intro c hc
    obtain ⟨log₁, log₂, db₁, db₂, -, -, hguar⟩ := htrace.split hc
    exact hguar.1
  · intro i c reply hi hkeys
    have hpost : Post c reply (cur i) p.shared.db := hgood.result hi
    exact hpost.once hkeys
  · intro i c f hi
    exact hgood.result hi
  · intro ws key n now idemKey idem hidem hn hfree hroom
    exact runSolo_consumeWith hidem hgood.inv hn hfree hroom

/-- The same consumption, twice. -/
def consumeTwice : List Call :=
  [.consumeWith "w" "seats" 5 newYear "k", .consumeWith "w" "seats" 5 newYear " k "]

theorem keys_applied_once_consumeTwice :
    ((runCalls freshDb consumeTwice).counter ⟨"w", "2026-01", "seats"⟩).used = 5 ∧
    ∃ log, AppliedOnce freshDb log (runCalls freshDb consumeTwice) := by
  have hplain : plainCalls freshDb consumeTwice = true := by decide
  obtain ⟨past, hrun⟩ : ∃ past, QuotaRun (callPolicy (· ∈ consumeTwice)) freshDb past
      (.idle (.quiet (runCalls freshDb consumeTwice))) :=
    quotaRun_calls (fun c hc e he => ⟨c, hc, he⟩) hplain
  obtain ⟨log, cur, -, -, honce, -⟩ := keys_applied_once freshDb_inv hrun
  exact ⟨by decide, _, honce⟩

/-! ## What a reservation is worth -/

/-- The reservation is live, and the counter holds what is outstanding of it. -/
def Db.Backs (db : Db) (id : String) : Prop :=
  ∃ r ∈ db.reservations, r.id = id ∧ r.status = .reserved ∧
    r.outstanding ≤ (db.counter r.counter).reserved

instance (db : Db) (id : String) : Decidable (db.Backs id) :=
  inferInstanceAs (Decidable (∃ r ∈ db.reservations, _))

/-- The effect ends the reservation: a settlement, a release of all that is
outstanding, an expiry. -/
def Effect.Ends (id : String) : Effect → Prop
  | .settle r _ _ => r.id = id
  | .release r amount _ => r.id = id ∧ r.outstanding ≤ amount
  | .expire _ rows => id ∈ rows.map Reservation.id
  | _ => False

/-- The reservation had ended in `db₀`, or one of the effects has ended it. -/
def EndedBy (db₀ : Db) (log : List (Nat × Effect)) (id : String) : Prop :=
  (∃ r ∈ db₀.reservations, r.id = id ∧ r.status ≠ .reserved) ∨ ∃ c ∈ log, c.2.Ends id

theorem Inv.backs {db : Db} (h : Inv db) {r : Reservation} (hr : r ∈ db.reservations)
    (hlive : r.status = .reserved) : db.Backs r.id :=
  ⟨r, hr, rfl, hlive, h.outstanding_le hr hlive⟩

/-- A row that has ended had ended before the effect, or was ended by it. -/
theorem ended_apply {π : Policy} {db : Db} {e : Effect} (h : Inv db) (he : Enabled π db e)
    {r : Reservation} (hr : r ∈ (e.apply db).reservations) (hended : r.status ≠ .reserved) :
    (∃ r' ∈ db.reservations, r'.id = r.id ∧ r'.status ≠ .reserved) ∨ e.Ends r.id := by
  cases e with
  | reserve r₀ =>
    have hres : ((Effect.reserve r₀).apply db).reservations = db.reservations ++ [r₀] := rfl
    rw [hres] at hr
    rcases List.mem_append.1 hr with hr | hr
    · exact .inl ⟨r, hr, rfl, hended⟩
    · rw [List.mem_singleton.1 hr] at hended
      exact absurd he.1.status hended
  | settle r₀ actual idem =>
    obtain ⟨r', hr', rfl⟩ := Table.mem_modify.1 hr
    split at hended
    · rename_i hmem
      refine .inr ?_
      rw [if_pos hmem, settle_id]
      exact (List.mem_singleton.1 hmem).symm
    · rename_i hmem
      rw [if_neg hmem]
      exact .inl ⟨r', hr', rfl, hended⟩
  | release r₀ amount idem =>
    obtain ⟨hr₀, hlive, -, -, -⟩ := he
    obtain ⟨r', hr', rfl⟩ := Table.mem_modify.1 hr
    split at hended
    · rename_i hmem
      obtain rfl : r' = r₀ := List.inj_on_of_nodup_map h.ids hr' hr₀ (List.mem_singleton.1 hmem)
      refine .inr ?_
      rw [if_pos hmem, release_id]
      refine ⟨rfl, ?_⟩
      rw [(h.rows r' hr').outstanding]
      by_contra hlt
      have hpart : ¬ r'.releasedAmount + amount ≥ r'.amount := by omega
      simp [Reservation.release, hlive, hpart] at hended
    · rename_i hmem
      rw [if_neg hmem]
      exact .inl ⟨r', hr', rfl, hended⟩
  | expire now rows =>
    obtain ⟨r', hr', rfl⟩ := Table.mem_modify.1 hr
    split at hended
    · rename_i hmem
      refine .inr ?_
      rw [if_pos hmem]
      exact hmem
    · rename_i hmem
      rw [if_neg hmem]
      exact .inl ⟨r', hr', rfl, hended⟩
  | consume ck n idem => cases idem <;> exact .inl ⟨r, hr, rfl, hended⟩
  | free ck n => exact .inl ⟨r, hr, rfl, hended⟩
  | grant gs => exact .inl ⟨r, hr, rfl, hended⟩

theorem trace_ended {π : Policy} (L : π.Lawful) {db₀ db : Db} (h₀ : π.J db₀)
    {log : List (Nat × Effect)} (h : (protocol π).Trace db₀ log db) {r : Reservation}
    (hr : r ∈ db.reservations) (hended : r.status ≠ .reserved) : EndedBy db₀ log r.id := by
  induction h generalizing r with
  | nil => exact .inl ⟨r, hr, rfl, hended⟩
  | @commit log db db' i e h hl ih =>
    obtain ⟨-, he, rfl⟩ := hl
    have hinv : Inv db := L.inv (h.inv (protocol_lawful L) h₀)
    rcases ended_apply hinv he hr hended with ⟨r', hr', hid, hended'⟩ | hends
    · rcases hid ▸ ih hr' hended' with h₀ | ⟨c, hc, hends⟩
      · exact .inl h₀
      · exact .inr ⟨c, List.mem_cons_of_mem _ hc, hends⟩
    · exact .inr ⟨(i, e), List.mem_cons_self, hends⟩
  | env _ he ih =>
    obtain ⟨ps, -, rfl⟩ := he
    exact ih hr hended

/-- Where `Reserve` has succeeded, and not degraded, it has answered with the
reservation of the key. That is live and backed by its counter, unless it had
ended before the run or has been settled, wholly released or expired since. An
answer that is no replay names a reservation that the call itself has made, with
the whole amount backed when it was committed. -/
theorem reserve_backed {db₀ : Db} (h₀ : Inv db₀)
    {past : List (Pool (TxOp Stmt PgErr) (Store.Sys Db Resource Write) Ended)}
    {p : Pool (TxOp Stmt PgErr) (Store.Sys Db Resource Write) Ended}
    (h : QuotaRun openPolicy db₀ past p) {i : Nat} {ws key idemKey : String} {amount : Int}
    {opts : ReserveOpts} {amb : Ambient} {res : ReserveResult}
    (hi : p.session i = some (.ret (.reserve ws key amount idemKey opts amb, .ok (.reserve res))))
    (hdegraded : res.degraded = false) :
    ∃ log cur, Journal (protocol openPolicy) openPolicy.programs db₀ past p log cur ∧
      (∃ r ∈ p.shared.db.reservations, r.id = res.reservationID ∧ r.idemKey = (ws, key, idemKey)) ∧
      (p.shared.db.Backs res.reservationID ∨ EndedBy db₀ log res.reservationID) ∧
      (res.replay = false → ∃ r log₁ log₂ db₁, log = log₂ ++ (i, .reserve r) :: log₁ ∧
        (protocol openPolicy).Trace db₀ log₁ db₁ ∧ r.id = res.reservationID ∧
        r.idemKey = (ws, key, idemKey) ∧ r.outstanding = amount ∧
        ((Effect.reserve r).apply db₁).Backs r.id) := by
  obtain ⟨log, cur, hgood, hjournal⟩ := run_sound openPolicy_lawful h₀ h
  have hinv : Inv p.shared.db := hgood.inv
  have htrace := hjournal.trace
  have hpost : ReservePost _ ws key idemKey amb.newID res (cur i) p.shared.db := hgood.result hi
  obtain ⟨honce, hnew, r, hr, hid, hkey⟩ := hpost.2 hdegraded
  refine ⟨log, cur, hjournal, ⟨r, hr, hid, hkey⟩, ?_, fun hreplay => ?_⟩
  · by_cases hlive : r.status = .reserved
    · exact .inl (hid ▸ hinv.backs hr hlive)
    · exact .inr (hid ▸ trace_ended openPolicy_lawful h₀ htrace hr hlive)
  · rw [hreplay] at honce
    obtain ⟨e, rfl, hcur⟩ := honce
    set r₀ := newReservation ws key amount idemKey opts amb
    have hlog : (i, Effect.reserve r₀) ∈ log := hjournal.mem_log (hcur ▸ List.mem_singleton_self _)
    obtain ⟨log₁, log₂, db₁, db₂, hsplit, htrace₁, -, henabled, -⟩ := htrace.split hlog
    have hinv₁ : Inv db₁ := htrace₁.inv (protocol_lawful openPolicy_lawful) h₀
    have hinv₂ := hinv₁.effect henabled
    have hmem : r₀ ∈ ((Effect.reserve r₀).apply db₁).reservations :=
      List.mem_append_right _ (List.mem_singleton_self r₀)
    have hout : r₀.outstanding = amount := by
      rw [(hinv₂.rows r₀ hmem).outstanding]
      exact sub_zero amount
    exact ⟨r₀, log₁, log₂, db₁, hsplit, htrace₁, (hnew hreplay).symm, rfl, hout,
      hinv₂.backs hmem rfl⟩

/-- A first reservation. -/
def reserveCall : Call := .reserve "w" "seats" 30 "a" {} ⟨newYear, newYear, "r1"⟩

theorem reserve_backed_reserveCall :
    ∃ past p, QuotaRun openPolicy freshDb past p ∧
      p.session 0 = some (.ret (reserveCall, .ok (.reserve ⟨"r1", false, false⟩))) ∧
      p.shared.db.Backs "r1" ∧
      ∃ r ∈ p.shared.db.reservations, r.id = "r1" ∧ r.idemKey = ("w", "seats", "a") := by
  obtain ⟨past, p, hrun, hdb, hi⟩ := quotaRun_last freshDb [] reserveCall
    (fun c _ => openPolicy_admits c) (openPolicy_admits reserveCall) rfl (by decide)
  have hend : (store.runSolo reserveCall.program freshDb).1
      = (reserveCall, .ok (.reserve ⟨"r1", false, false⟩)) := by decide
  rw [show runCalls freshDb [] = freshDb from rfl, hend] at hi
  obtain ⟨log, cur, -, hrow, -⟩ := reserve_backed freshDb_inv hrun hi rfl
  refine ⟨past, p, hrun, hi, ?_, hrow⟩
  rw [hdb]
  decide

/-- A reservation, and the expiry sweep two days later. -/
def reserveAndExpire : List Call :=
  [reserveCall, .expireDueReservations (newYear + 2 * reservationTTL) 100]

/-- The replay of a reservation that has expired succeeds, though nothing is held
for it any more. -/
theorem reserve_replay_unbacked :
    ∃ past p, QuotaRun openPolicy freshDb past p ∧
      p.session 0 = some (.ret (reserveCall, .ok (.reserve ⟨"r1", true, false⟩))) ∧
      ¬ p.shared.db.Backs "r1" ∧
      (p.shared.db.counter ⟨"w", "2026-01", "seats"⟩).reserved = 0 := by
  obtain ⟨past, p, hrun, hdb, hi⟩ := quotaRun_last freshDb reserveAndExpire reserveCall
    (fun c _ => openPolicy_admits c) (openPolicy_admits reserveCall) (by decide) (by decide)
  have hend : (store.runSolo reserveCall.program (runCalls freshDb reserveAndExpire)).1
      = (reserveCall, .ok (.reserve ⟨"r1", true, false⟩)) := by decide
  rw [hend] at hi
  refine ⟨past, p, hrun, hi, ?_, ?_⟩ <;> rw [hdb] <;> decide

end Ploykit.Quota

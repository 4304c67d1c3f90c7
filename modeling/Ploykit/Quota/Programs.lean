import Ploykit.Quota.Effects

/-!
# Quota programs

`Call` lists the operations with their arguments, and `Call.Commits` the effects
that each may have. `Post` says what a call that is answered with success has
committed, and what the tables show from then on. Each program is proved to keep
the protocol statement by statement, whatever other sessions do in between.
-/

namespace Ploykit.Quota

open Lib Protocol

/-! ## Calls -/

inductive Call where
  | reserve (workspaceID key : String) (amount : Int) (idemKey : String) (opts : ReserveOpts)
      (amb : Ambient)
  | settle (reservationID : String) (actual : Int) (idemKey : String)
  | releaseReservation (reservationID : String) (amount : Int) (idemKey : String)
  | expireDueReservations (now : Time) (limit : Int)
  | consume (workspaceID key : String) (n : Int) (now : Time)
  | consumeWith (workspaceID key : String) (n : Int) (now : Time) (idemKey : String)
  | release (workspaceID key : String) (n : Int) (now : Time)
  | grant (workspaceID key reason refID : String) (amount : Int) (now : Time)
  | grantTx (workspaceID key reason refID : String) (amount : Int) (now : Time) (commits : Bool)
  | grantPeriodic (workspaceID key reason refID : String) (amount : Int) (cycle : String)
      (now : Time)
  | refreshPeriodicGrants (now : Time)
  deriving DecidableEq, Repr

inductive Reply where
  | reserve (res : ReserveResult)
  | settle (res : SettleResult)
  | release (res : ReleaseResult)
  | expired (rs : List Reservation)
  | consume (res : ConsumeResult)
  | done
  | unlocked (b : Bool)
  | issued (gs : List GrantIssued)
  deriving DecidableEq, Repr

def Call.exec : Call → Act Reply
  | .reserve ws key amount idem opts amb => .reserve <$> Quota.reserve ws key amount idem opts amb
  | .settle id actual idem => .settle <$> Quota.settle id actual idem
  | .releaseReservation id amount idem => .release <$> Quota.releaseReservation id amount idem
  | .expireDueReservations now limit => .expired <$> Quota.expireDueReservations now limit
  | .consume ws key n now => (fun _ => .done) <$> Quota.consume ws key n now
  | .consumeWith ws key n now idem => .consume <$> Quota.consumeWith ws key n now idem
  | .release ws key n now => (fun _ => .done) <$> Quota.release ws key n now
  | .grant ws key reason ref amount now => .unlocked <$> Quota.grant ws key reason ref amount now
  | .grantTx ws key reason ref amount now commits =>
      .unlocked <$> Quota.grantTx ws key reason ref amount now commits
  | .grantPeriodic ws key reason ref amount cycle now =>
      .unlocked <$> Quota.grantPeriodic ws key reason ref amount cycle now
  | .refreshPeriodicGrants now => .issued <$> Quota.refreshPeriodicGrants now

/-- A call and how it ended. -/
abbrev Ended := Call × Except (Failure PgErr Webx.Error) Reply

/-- The program of a session that makes one call. -/
def Call.program (c : Call) : Script (TxOp Stmt PgErr) Ended :=
  c.exec.run.bind fun r => .ret (c, r)

/-- The key that a consumption claims: none for a blank one. -/
def consumeKey (idemKey : String) : Option String :=
  if Strings.trimSpace idemKey = "" then none else some (Strings.trimSpace idemKey)

/-- The effects that a call may have. -/
def Call.Commits : Call → Effect → Prop
  | .reserve ws key amount idem opts amb, e =>
      e = .reserve (newReservation ws key amount idem opts amb)
  | .settle id actual idem, e => ∃ r, r.id = id ∧ e = .settle r actual idem
  | .releaseReservation id _ idem, e => ∃ r taken, r.id = id ∧ e = .release r taken idem
  | .expireDueReservations now _, e => ∃ rows, e = .expire now rows
  | .consume ws key n now, e => e = .consume ⟨ws, period now, key⟩ n none
  | .consumeWith ws key n now idem, e => e = .consume ⟨ws, period now, key⟩ n (consumeKey idem)
  | .release ws key n now, e => e = .free ⟨ws, period now, key⟩ n
  | .grant ws key reason ref amount now, e
  | .grantTx ws key reason ref amount now _, e =>
      e = .grant [⟨ws, period now, key, amount, reason, ref, none⟩]
  | .grantPeriodic ws key reason ref amount cycle now, e =>
      e = .grant [⟨ws, period now, key, amount, reason, ref, some cycle⟩]
  | .refreshPeriodicGrants now, e =>
      ∃ gs, (∀ g ∈ gs, ∃ t : Grant, g = t.issue (period now)) ∧ e = .grant gs

/-! ## What has been committed -/

/-- A replay commits nothing, any other call one effect. -/
def Once (K : Effect → Prop) (replay : Bool) (done : List Effect) : Prop :=
  if replay then done = [] else ∃ e, K e ∧ done = [e]

def AtMostOnce (K : Effect → Prop) (done : List Effect) : Prop := done = [] ∨ ∃ e, K e ∧ done = [e]

/-- How a call fails: refused without having committed anything, or because of
the store, where a commit may have been applied all the same. -/
def Fails (K : Effect → Prop) (f : Failure PgErr Webx.Error) (done : List Effect)
    (t : Option (Tx Resource Write)) : Prop :=
  t = none ∧ match f with
    | .app _ => done = []
    | .store _ => AtMostOnce K done

section commits

variable {K : Effect → Prop} {e : Effect} {done : List Effect}

theorem Once.replay : Once K true [] := rfl

theorem Once.applied (h : K e) : Once K false [e] := ⟨e, h, rfl⟩

/-- Before anything is committed, a call may fail in every way. -/
theorem Fails.nil (f : Failure PgErr Webx.Error) : Fails K f [] none := by
  cases f with
  | app w => exact ⟨rfl, rfl⟩
  | store e => exact ⟨rfl, .inl rfl⟩

/-- A commit may be applied and still be reported as failed. -/
theorem Fails.lost (h : K e) (err : PgErr) : Fails K (.store err) [e] none :=
  ⟨rfl, .inr ⟨e, h, rfl⟩⟩

theorem Fails.atMost {f : Failure PgErr Webx.Error} {t : Option (Tx Resource Write)}
    (h : Fails K f done t) : AtMostOnce K done := by
  cases f with
  | app w => exact .inl h.2
  | store e => exact h.2

end commits

/-! ## Rules for quota statements -/

section rules

variable {π : Policy} {R : Failure PgErr Webx.Error → List Effect → Option (Tx Resource Write) → Prop}
  {β : Type} {s : Stmt β} {db : Db} {done : List Effect}
  {Q : β → List Effect → Option (Tx Resource Write) → Db → Prop} {tx : Tx Resource Write}

theorem moves_effect {e : Effect} (hc : π.commits e) (he : Enabled π db e) :
    (protocol π).Moves done (e :: done) db (e.apply db) := .commit ⟨hc, he, rfl⟩

theorem awp_stmt (hR : ∀ e, R (.store e) done (some tx))
    (h : ∀ db₁, (protocol π).Rely (some tx) db db₁ → NoClamp (store.applyAll db₁ tx.writes) s ∧
      (π.allowed s → ∀ held o, eval s held (store.applyAll db₁ tx.writes) = .ok o →
        Q o.value done (some (tx.add o)) db₁)) :
    (protocol π).awp R (Action.query s : Act β) Q done (some tx) db :=
  awp_query hR h

theorem awp_stmt_auto (hR : ∀ e, R (.store e) done none)
    (h : ∀ db₁, (protocol π).Rely none db db₁ → NoClamp db₁ s ∧
      (π.allowed s → ∀ held o, eval s held db₁ = .ok o →
        ∃ done', (protocol π).Moves done done' db₁ (store.applyAll db₁ o.writes) ∧
          Q o.value done' none (store.applyAll db₁ o.writes))) :
    (protocol π).awp R (Action.query s : Act β) Q done none db :=
  awp_query_auto hR h

/-- A statement that only reads what its transaction has not written. -/
theorem awp_read (v : Db → β) (hs : ∀ held db o, eval s held db = .ok o → o = reads (v db))
    (hv : ∀ db, v (store.applyAll db tx.writes) = v db) (hclamp : ∀ db, NoClamp db s)
    (hR : ∀ e, R (.store e) done (some tx))
    (h : ∀ db₁, (protocol π).Rely (some tx) db db₁ → Q (v db₁) done (some tx) db₁) :
    (protocol π).awp R (Action.query s : Act β) Q done (some tx) db := by
  refine awp_stmt hR fun db₁ hr => ⟨hclamp _, fun _ held o ho => ?_⟩
  obtain rfl := hs held _ o ho
  have htx : tx.add (reads (v (store.applyAll db₁ tx.writes))) = tx := by
    simp [Tx.add, reads]
  rw [htx]
  simpa only [reads, hv] using h db₁ hr

/-- A statement that only reads, on its own. -/
theorem awp_read_auto (v : Db → β) (hs : ∀ held db o, eval s held db = .ok o → o = reads (v db))
    (hclamp : ∀ db, NoClamp db s) (hR : ∀ e, R (.store e) done none)
    (h : ∀ db₁, (protocol π).Rely none db db₁ → Q (v db₁) done none db₁) :
    (protocol π).awp R (Action.query s : Act β) Q done none db := by
  refine awp_stmt_auto hR fun db₁ hr => ⟨hclamp _, fun _ held o ho => ?_⟩
  obtain rfl := hs held _ o ho
  exact ⟨done, .stay, h db₁ hr⟩

theorem awp_planLimitsFor {ws : String}
    {Q : Plan → List Effect → Option (Tx Resource Write) → Db → Prop}
    (hR : ∀ e, R (.store e) done (some tx))
    (hplans : ∀ db, (store.applyAll db tx.writes).plans = db.plans)
    (h : ∀ db₁, (protocol π).Rely (some tx) db db₁ → Q (db₁.planOf ws) done (some tx) db₁) :
    (protocol π).awp R (planLimitsFor ws) Q done (some tx) db := by
  refine awp_bind (awp_read (fun db => db.plans ws) (fun _ _ _ ho => (Except.ok.inj ho).symm)
    (fun db => by rw [hplans]) (fun _ => trivial) hR fun db₁ hr => ?_)
  have hq := h db₁ hr
  simp only [Db.planOf] at hq
  cases hp : db₁.plans ws <;> rw [hp] at hq <;> exact awp_pure hq

theorem awp_planLimitsFor_auto {ws : String}
    {Q : Plan → List Effect → Option (Tx Resource Write) → Db → Prop}
    (hR : ∀ e, R (.store e) done none)
    (h : ∀ db₁, (protocol π).Rely none db db₁ → Q (db₁.planOf ws) done none db₁) :
    (protocol π).awp R (planLimitsFor ws) Q done none db := by
  refine awp_bind (awp_read_auto (fun db => db.plans ws) (fun _ _ _ ho => (Except.ok.inj ho).symm)
    (fun _ => trivial) hR fun db₁ hr => ?_)
  have hq := h db₁ hr
  simp only [Db.planOf] at hq
  cases hp : db₁.plans ws <;> rw [hp] at hq <;> exact awp_pure hq

end rules

/-! ## What a session may rely on -/

section rely

variable {π : Policy} {db db₁ : Db} {tx : Tx Resource Write} {t : Option (Tx Resource Write)}

theorem rely_reservation (hr : (protocol π).Rely (some tx) db db₁) {r : Reservation}
    (hlock : .reservation r.id ∈ tx.locks) (h : db.reservation r.id = some r) :
    db₁.reservation r.id = some r :=
  (hr.locked tx rfl _ hlock).symm.trans h

theorem rely_counter (hr : (protocol π).Rely (some tx) db db₁) {ck : CounterKey}
    (hlock : .counter ck ∈ tx.locks) : db.counters ck = db₁.counters ck :=
  hr.locked tx rfl _ hlock

/-- A row that has ended stays as it is. -/
theorem rely_ended (hr : (protocol π).Rely t db db₁) {r : Reservation} (h : r ∈ db.reservations)
    (hended : r.status ≠ .reserved) : r ∈ db₁.reservations := by
  obtain ⟨r', hr', hb⟩ := hr.evolves.reservations r h
  exact hb.ended hended ▸ hr'

theorem reservation_mem {db : Db} {id : String} {r : Reservation} (h : db.reservation id = some r) :
    r ∈ db.reservations ∧ r.id = id :=
  Table.get_some h

end rely

/-! ## Settle -/

section programs

variable {π : Policy} (L : π.Lawful) {K : Effect → Prop} (hK : ∀ e, K e → π.commits e)
include L

/-- The reservation is settled under the key, with the answered amount. -/
def SettlePost (K : Effect → Prop) (reservationID idemKey : String) (res : SettleResult)
    (done : List Effect) (db : Db) : Prop :=
  Once K res.replay done ∧ ∃ r ∈ db.reservations, r.id = reservationID ∧ r.status = .settled ∧
    r.settleIdempotencyKey = some idemKey ∧ r.settledAmount = res.actual

include hK in
theorem awp_settle {reservationID : String} {actual : Int} {idemKey : String}
    (hc : ∀ r, r.id = reservationID → K (.settle r actual idemKey)) (db : Db) :
    (protocol π).awp (Fails K) (settle reservationID actual idemKey)
      (Final (SettlePost K reservationID idemKey)) [] none db := by
  unfold settle
  split
  · exact awp_throw (.nil _)
  split
  · exact awp_throw (.nil _)
  rename_i hactual _
  refine awp_inTx (fun _ => .nil _) fun db₁ hr₁ => awp_bind (awp_stmt (fun _ => .nil _)
    fun db₂ hr₂ => ⟨trivial, fun _ held o ho => ?_⟩)
  rcases eval_lockReservation ho with ⟨-, rfl⟩ | ⟨r, hsome, rfl⟩
  · exact awp_throw (.nil _)
  obtain ⟨hmem, hid⟩ := reservation_mem hsome
  subst hid
  cases hstatus : r.status with
  | settled =>
    simp only [hstatus]
    split
    · rename_i hkey
      refine awp_pure fun db₃ hr₃ => ⟨rfl, .replay, r, ?_, rfl, hstatus, hkey, rfl⟩
      exact rely_ended hr₃ hmem (by simp [hstatus])
    · exact awp_throw (.nil _)
  | released =>
    simp only [hstatus]
    exact awp_throw (.nil _)
  | expired =>
    simp only [hstatus]
    exact awp_throw (.nil _)
  | reserved =>
    simp only [hstatus]
    have hlock : Resource.reservation r.id ∈ [Resource.reservation r.id] := List.mem_singleton_self _
    refine awp_bind (awp_stmt (fun _ => .nil _) fun db₃ hr₃ => ⟨?_, fun hall held o ho => ?_⟩)
    · have hrow := rely_reservation hr₃ hlock hsome
      exact (L.inv hr₃.inv).outstanding_le (reservation_mem hrow).1 hstatus
    obtain rfl := eval_settleCounter ho
    refine awp_bind (awp_stmt (fun _ => .nil _) fun db₄ hr₄ => ⟨trivial, fun _ held o ho => ?_⟩)
    have hrow₄ : db₄.reservation r.id = some r :=
      rely_reservation hr₄ (by simp) (rely_reservation hr₃ hlock hsome)
    rcases eval_settleReservation ho with ⟨-, hne⟩ | rfl
    · exact absurd hstatus (hne r hrow₄)
    refine awp_bind (awp_commit (fun _ => .nil _) fun db₅ hr₅ => ?_)
    have hrow₅ : db₅.reservation r.id = some r := rely_reservation hr₅ (by simp) hrow₄
    have hmem₅ := (reservation_mem hrow₅).1
    have heffect : K (.settle r actual idemKey) := hc r rfl
    refine ⟨[.settle r actual idemKey], moves_effect (hK _ heffect)
      ⟨hmem₅, hstatus, not_lt.1 hactual, hall⟩, .lost heffect, ?_⟩
    refine awp_pure fun db₆ hr₆ =>
      ⟨rfl, .applied heffect, r.settle actual idemKey, rely_ended hr₆ ?_ ?_, ?_⟩
    · exact Table.mem_modify.2 ⟨r, hmem₅, by simp⟩
    · simp [Reservation.settle, hstatus]
    · simp [Reservation.settle, hstatus]

/-! ## ReleaseReservation -/

/-- The release key is recorded on the reservation. -/
def ReleasePost (K : Effect → Prop) (reservationID idemKey : String) (res : ReleaseResult)
    (done : List Effect) (db : Db) : Prop :=
  Once K res.replay done ∧
    ∃ r ∈ db.reservations, r.id = reservationID ∧ idemKey ∈ r.releaseIdempotencyKeys

omit L in
theorem releaseAmount_bounds {amount outstanding : Int} (h : 0 ≤ outstanding) :
    0 ≤ releaseAmount amount outstanding ∧ releaseAmount amount outstanding ≤ outstanding := by
  simp only [releaseAmount]
  split <;> split <;> omega

omit L in
theorem release_keys {r : Reservation} (h : r.status = .reserved) (amount : Int) (idem : String) :
    idem ∈ (r.release amount idem).releaseIdempotencyKeys := by
  simp [Reservation.release, h]

omit L in
theorem rely_releaseKey {t : Option (Tx Resource Write)} {db db₁ : Db} {idem : String}
    (hr : (protocol π).Rely t db db₁) {r : Reservation} (h : r ∈ db.reservations)
    (hkey : idem ∈ r.releaseIdempotencyKeys) :
    ∃ r' ∈ db₁.reservations, r'.id = r.id ∧ idem ∈ r'.releaseIdempotencyKeys := by
  obtain ⟨r', hr', hb⟩ := hr.evolves.reservations r h
  exact ⟨r', hr', hb.id, hb.releaseKeys.subset hkey⟩

include hK in
theorem awp_releaseReservation {reservationID : String} (amount : Int) {idemKey : String}
    (hc : ∀ r taken, r.id = reservationID → K (.release r taken idemKey)) (db : Db) :
    (protocol π).awp (Fails K) (releaseReservation reservationID amount idemKey)
      (Final (ReleasePost K reservationID idemKey)) [] none db := by
  unfold releaseReservation
  split
  · exact awp_throw (.nil _)
  refine awp_inTx (fun _ => .nil _) fun db₁ hr₁ => awp_bind (awp_stmt (fun _ => .nil _)
    fun db₂ hr₂ => ⟨trivial, fun _ held o ho => ?_⟩)
  rcases eval_lockReservation ho with ⟨-, rfl⟩ | ⟨r, hsome, rfl⟩
  · exact awp_throw (.nil _)
  obtain ⟨hmem, hid⟩ := reservation_mem hsome
  subst hid
  simp only
  split
  · rename_i hkey
    exact awp_pure fun db₃ hr₃ => ⟨rfl, .replay, rely_releaseKey hr₃ hmem hkey⟩
  split
  · exact awp_throw (.nil _)
  rename_i hkey hstatus
  have hlive : r.status = .reserved := not_not.1 hstatus
  have hlock : Resource.reservation r.id ∈ [Resource.reservation r.id] := List.mem_singleton_self _
  have hok : r.Ok := (L.inv hr₂.inv).rows r hmem
  have hbounds : 0 ≤ releaseAmount amount r.outstanding ∧
      releaseAmount amount r.outstanding ≤ r.outstanding := by
    refine releaseAmount_bounds ?_
    have hle := hok.released_le
    rw [hok.outstanding]
    omega
  refine awp_bind (awp_stmt (fun _ => .nil _) fun db₃ hr₃ => ?_)
  have hrow₃ := rely_reservation hr₃ hlock hsome
  have hmem₃ := (reservation_mem hrow₃).1
  refine ⟨hbounds.2.trans ((L.inv hr₃.inv).outstanding_le hmem₃ hlive), fun _ held o ho => ?_⟩
  obtain ⟨c, hcounter⟩ := (L.inv hr₃.inv).counter_isSome hmem₃ hlive
  rcases eval_unreserve ho with ⟨hnone, -⟩ | rfl
  · exact absurd (hcounter.symm.trans hnone) (by simp)
  refine awp_bind (awp_stmt (fun _ => .nil _) fun db₄ hr₄ => ⟨trivial, fun _ held o ho => ?_⟩)
  have hrow₄ : db₄.reservation r.id = some r := rely_reservation hr₄ (by simp) hrow₃
  rcases eval_releaseReservation ho with ⟨-, hne⟩ | rfl
  · exact absurd hlive (hne r hrow₄)
  refine awp_bind (awp_commit (fun _ => .nil _) fun db₅ hr₅ => ?_)
  have hrow₅ : db₅.reservation r.id = some r := rely_reservation hr₅ (by simp) hrow₄
  have hmem₅ := (reservation_mem hrow₅).1
  have heffect : K (.release r (releaseAmount amount r.outstanding) idemKey) := hc r _ rfl
  refine ⟨[.release r (releaseAmount amount r.outstanding) idemKey], moves_effect (hK _ heffect)
    ⟨hmem₅, hlive, hbounds.1, hbounds.2, hkey⟩, .lost heffect, ?_⟩
  refine awp_pure fun db₆ hr₆ => ⟨rfl, .applied heffect, ?_⟩
  have hafter : r.release (releaseAmount amount r.outstanding) idemKey ∈
      Table.modify Reservation.id [r.id]
        (Reservation.release (releaseAmount amount r.outstanding) idemKey) db₅.reservations :=
    Table.mem_modify.2 ⟨r, hmem₅, by simp⟩
  have hpost := rely_releaseKey hr₆ hafter (release_keys hlive _ _)
  rwa [release_id] at hpost

/-! ## ExpireDueReservations -/

omit L in
theorem dueReservations_spec (db : Db) (held : Resource → Bool) (now : Time) (limit : Int)
    (hids : (db.reservations.map Reservation.id).Nodup) :
    (dueReservations db held now limit).Nodup ∧ ∀ r ∈ dueReservations db held now limit,
      r ∈ db.reservations ∧ r.status = .reserved ∧ r.expiresAt ≤ now := by
  have hperm := List.perm_insertionSort dueBefore (db.reservations.filter fun r =>
    r.status = .reserved ∧ r.expiresAt ≤ now ∧ held (.reservation r.id) = false)
  constructor
  · exact (hperm.nodup_iff.2 ((hids.of_map _).filter _)).sublist (List.take_sublist _ _)
  · intro r hr
    have hmem := hperm.mem_iff.1 (List.mem_of_mem_take hr)
    simp only [List.mem_filter, decide_eq_true_eq] at hmem
    exact ⟨hmem.1, hmem.2.1, hmem.2.2.1⟩

omit L in
theorem expire_share (rows : List Reservation) :
    (rows.map Reservation.expire).map (fun r => (r.counter, r.outstanding))
      = rows.map Reservation.share := by
  simp only [List.map_map]
  rfl

omit L in
theorem apply_expire_nil (db : Db) : apply db (.expireReservations []) = db := by
  simp [apply, Db.updateReservations, Table.modify]

/-- What the sweep answers is what it has expired. -/
def ExpirePost (now : Time) (expired : List Reservation) (done : List Effect) (_ : Db) : Prop :=
  (expired = [] ∧ done = []) ∨
    ∃ rows : List Reservation, expired = rows.map Reservation.expire ∧ done = [.expire now rows]

include hK in
theorem awp_expireDueReservations {now : Time} (limit : Int) (hc : ∀ rows, K (.expire now rows))
    (db : Db) :
    (protocol π).awp (Fails K) (expireDueReservations now limit) (Final (ExpirePost now)) []
      none db := by
  unfold expireDueReservations
  refine awp_inTx (fun _ => .nil _) fun db₁ hr₁ => awp_bind (awp_stmt (fun _ => .nil _)
    fun db₂ hr₂ => ⟨trivial, fun _ held o ho => ?_⟩)
  obtain ⟨due, hdue, rfl⟩ := eval_expireReservations ho
  obtain ⟨hnodup, hspec⟩ := dueReservations_spec db₂ held now (if limit ≤ 0 then 100 else limit)
    (L.inv hr₂.inv).ids
  have hdue' : due = dueReservations db₂ held now (if limit ≤ 0 then 100 else limit) := hdue
  rw [← hdue'] at hnodup hspec
  clear ho hdue hdue'
  -- the rows stay as they are while they are locked
  have hrows : ∀ db' : Db, (∀ r ∈ due, db₂.reservation r.id = db'.reservation r.id) →
      ∀ r ∈ due, r ∈ db'.reservations ∧ r.status = .reserved ∧ r.expiresAt ≤ now := by
    intro db' hsame r hr
    obtain ⟨hmem, hlive, hexp⟩ := hspec r hr
    have hget := Table.get_of_mem (L.inv hr₂.inv).ids hmem
    exact ⟨(reservation_mem ((hsame r hr).symm.trans hget)).1, hlive, hexp⟩
  have hlock : ∀ r ∈ due, Resource.reservation r.id ∈
      touches (.expireReservations (due.map Reservation.id)) := by
    intro r hr
    simpa [touches] using ⟨r, hr, rfl⟩
  split
  · rename_i hnil
    have hdue : due = [] := by simpa [writes] using hnil
    subst hdue
    refine awp_bind (awp_commit (fun _ => .nil _) fun db₃ hr₃ => ⟨[], ?_, fun _ => .nil _, ?_⟩)
    · exact .inl ⟨rfl, apply_expire_nil db₃⟩
    · exact awp_pure fun _ _ => ⟨rfl, .inl ⟨rfl, rfl⟩⟩
  · refine awp_bind (awp_stmt (fun _ => .nil _) fun db₃ hr₃ => ?_)
    have hsame₃ : ∀ r ∈ due, db₂.reservation r.id = db₃.reservation r.id := fun r hr =>
      hr₃.locked _ rfl (.reservation r.id) (hlock r hr)
    have hrows₃ := hrows db₃ hsame₃
    have hinv₃ := L.inv hr₃.inv
    have hshare := expire_share due
    refine ⟨fun ck => ?_, fun _ held o ho => ?_⟩
    · simp only [writes, hshare]
      rw [heldFor_eq_amountAt ck fun r hr => ⟨hinv₃.rows r (hrows₃ r hr).1, (hrows₃ r hr).2.1⟩]
      exact hinv₃.sum_le_reserved hnodup (fun r hr => (hrows₃ r hr).1) ck
    simp only [writes, hshare] at ho
    have hall : ∀ row ∈ due.map Reservation.share, (db₃.counters row.1).isSome := by
      intro row hrow
      obtain ⟨r, hr, rfl⟩ := List.mem_map.1 hrow
      obtain ⟨c, hc⟩ := hinv₃.counter_isSome (hrows₃ r hr).1 (hrows₃ r hr).2.1
      simp [Reservation.share, hc]
    obtain rfl : o = writes () (.unreserve (due.map Reservation.share)) :=
      (eval_unreserveAll ho).trans (congrArg (fun rows => writes () (.unreserve rows))
        (List.filter_eq_self.2 hall))
    refine awp_bind (awp_commit (fun _ => .nil _) fun db₄ hr₄ => ?_)
    have hsame₄ : ∀ r ∈ due, db₂.reservation r.id = db₄.reservation r.id := fun r hr =>
      (hsame₃ r hr).trans
        (hr₄.locked _ rfl (.reservation r.id) (List.mem_append_left _ (hlock r hr)))
    refine ⟨[.expire now due], moves_effect (hK _ (hc due)) ⟨hnodup, hrows db₄ hsame₄⟩,
      .lost (hc due), ?_⟩
    exact awp_pure fun _ _ => ⟨rfl, .inr ⟨due, rfl, rfl⟩⟩

/-! ## Reserve -/

/-- Unless it is degraded, the answer names the reservation that is bound to the
key; if it is no replay, the one that the call has inserted. -/
def ReservePost (K : Effect → Prop) (workspaceID key idemKey newID : String) (res : ReserveResult)
    (done : List Effect) (db : Db) : Prop :=
  AtMostOnce K done ∧ (res.degraded = false →
    Once K res.replay done ∧ (res.replay = false → res.reservationID = newID) ∧
    ∃ r ∈ db.reservations, r.id = res.reservationID ∧ r.idemKey = (workspaceID, key, idemKey))

omit L in
/-- The answer of a replay. -/
theorem reservePost_replay {t : Option (Tx Resource Write)} {db db₁ : Db}
    {workspaceID key idemKey newID : String} {r : Reservation} (hr : (protocol π).Rely t db db₁)
    (h : db.reservationByIdemKey (workspaceID, key, idemKey) = some r) :
    ReservePost K workspaceID key idemKey newID { reservationID := r.id, replay := true } [] db₁ := by
  obtain ⟨hmem, hkey⟩ := Table.get_some h
  obtain ⟨r', hr', hb⟩ := hr.evolves.reservations r hmem
  exact ⟨.inl rfl, fun _ => ⟨.replay, (fun h => by cases h), r', hr', hb.id, hb.idemKey.trans hkey⟩⟩

include hK in
theorem awp_reserveTx {workspaceID key : String} {amount : Int} {idemKey : String}
    {opts : ReserveOpts} {amb : Ambient}
    (hc : K (.reserve (newReservation workspaceID key amount idemKey opts amb))) (db : Db) :
    (protocol π).awp (Fails K) (reserveTx workspaceID key amount idemKey opts amb)
      (Final (ReservePost K workspaceID key idemKey amb.newID)) [] none db := by
  unfold reserveTx
  simp only
  set ck : CounterKey := ⟨workspaceID, period amb.now, key⟩ with hck
  refine awp_inTx (fun _ => .nil _) fun db₁ hr₁ => awp_bind (awp_stmt (fun _ => .nil _)
    fun db₂ hr₂ => ⟨trivial, fun _ held o ho => ?_⟩)
  obtain rfl : o = writes (db₂.counter ck) (.touchCounter ck) := (Except.ok.inj ho).symm
  have lookup : ∀ held db o,
      eval (.reservationIDByIdemKey workspaceID key idemKey) held db = .ok o →
      o = reads ((db.reservationByIdemKey (workspaceID, key, idemKey)).map Reservation.id) :=
    fun _ _ _ ho => (Except.ok.inj ho).symm
  refine awp_bind (awp_read _ lookup (fun _ => rfl) (fun _ => trivial) (fun _ => .nil _)
    fun db₃ hr₃ => ?_)
  cases hfound : db₃.reservationByIdemKey (workspaceID, key, idemKey) with
  | some r => exact awp_pure fun db₄ hr₄ => ⟨rfl, reservePost_replay hr₄ hfound⟩
  | none =>
  refine awp_bind (awp_planLimitsFor (fun _ => .nil _) (fun _ => rfl) fun db₄ hr₄ => ?_)
  refine awp_bind (awp_read (fun db => db.granted ck) (fun _ _ _ ho => eval_sumGrants ho)
    (fun _ => rfl) (fun _ => trivial) (fun _ => .nil _) fun db₅ hr₅ => ?_)
  refine awp_ite (fun _ => awp_throw (.nil _)) fun havail => ?_
  refine awp_bind (awp_stmt (fun _ => .nil _) fun db₆ hr₆ => ⟨trivial, fun _ held o ho => ?_⟩)
  rcases eval_addReserved ho with ⟨hnone, -⟩ | rfl
  · cases (upsertCounter_self db₆ ck ⟨0, 0⟩ id).symm.trans hnone
  refine awp_bind (awp_stmt (fun _ => .nil _) fun db₇ hr₇ => ⟨trivial, fun _ held o ho => ?_⟩)
  rcases eval_insertReservation ho with ⟨rfl, -⟩ | ⟨rfl, hbig, hpos, hkey, hid⟩
  · -- another reservation with the key was committed in between
    refine awp_bind (awp_read _ lookup (fun _ => rfl) (fun _ => trivial) (fun _ => .nil _)
      fun db₈ hr₈ => ?_)
    cases hagain : db₈.reservationByIdemKey (workspaceID, key, idemKey) with
    | some r => exact awp_pure fun db₉ hr₉ => ⟨rfl, reservePost_replay hr₉ hagain⟩
    | none => exact awp_throw (.nil _)
  refine awp_bind (awp_commit (fun _ => .nil _) fun db₈ hr₈ => ?_)
  set r : Reservation := newReservation workspaceID key amount idemKey opts amb
  have hkey₈ : r.idemKey ∉ db₈.reservations.map Reservation.idemKey := fun h =>
    hkey ((hr₈.locked _ rfl (.reserveKey r.idemKey) (by simp [writes, touches])).2 h)
  have hid₈ : r.id ∉ db₈.reservations.map Reservation.id := by
    refine Table.get_none.1 ?_
    rw [← Table.get_none] at hid
    exact (hr₈.locked _ rfl (.reservation r.id) (by simp [writes, touches])).symm.trans hid
  have hcounter₅ : db₅.counters ck = db₈.counters ck :=
    ((rely_counter hr₆ (by simp [writes, touches])).trans
      (rely_counter hr₇ (by simp [writes, touches]))).trans
      (rely_counter hr₈ (by simp [writes, touches]))
  have hcounter₂ : db₂.counter ck = db₈.counter ck := by
    have h₃ := @rely_counter _ _ _ _ hr₃ ck (by simp [writes, touches])
    have h₄ := @rely_counter _ _ _ _ hr₄ ck (by simp [writes, touches])
    have h₅ := @rely_counter _ _ _ _ hr₅ ck (by simp [writes, touches])
    simp only [Db.counter, h₃, h₄, h₅, hcounter₅]
  have hev₅ : Evolves π db₅ db₈ := (hr₆.evolves.trans L hr₇.evolves).trans L hr₈.evolves
  have hadmit : ReserveAdmits π db₈ ck amount db₄ db₅ := by
    refine ⟨Evolves.trans L hr₅.evolves hev₅, hev₅, hr₅.inv, hcounter₅, ?_⟩
    rw [← hcounter₂]
    exact not_lt.1 havail
  refine ⟨[.reserve r], moves_effect (hK _ hc)
    ⟨⟨hpos, hbig, rfl, rfl, rfl⟩, hkey₈, hid₈, db₄, db₅, hadmit⟩, .lost hc, ?_⟩
  refine awp_pure fun db₉ hr₉ =>
    ⟨rfl, .inr ⟨_, hc, rfl⟩, fun _ => ⟨.applied hc, fun _ => rfl, ?_⟩⟩
  obtain ⟨r', hr', hb⟩ := hr₉.evolves.reservations r (List.mem_append_right _ (List.mem_singleton_self r))
  exact ⟨r', hr', hb.id, hb.idemKey⟩

/-- How `Reserve` fails: also a failure of the store is answered as refused. -/
def ReserveFails (K : Effect → Prop) (_ : Failure PgErr Webx.Error) (done : List Effect)
    (t : Option (Tx Resource Write)) : Prop := t = none ∧ AtMostOnce K done

omit L in
theorem awp_reserveFailure (opts : ReserveOpts) (err : Failure PgErr Webx.Error)
    (workspaceID key idemKey newID : String) {done : List Effect} (hdone : AtMostOnce K done)
    (db : Db) :
    (protocol π).awp (ReserveFails K) (reserveFailure opts err)
      (Final (ReservePost K workspaceID key idemKey newID)) done none db := by
  cases err with
  | app e => exact awp_throw ⟨rfl, hdone⟩
  | store e =>
    refine awp_ite (fun _ => awp_pure ⟨rfl, hdone, fun h => ?_⟩) fun _ => awp_throw ⟨rfl, hdone⟩
    cases h

include hK in
theorem awp_reserve {workspaceID key : String} {amount : Int} {idemKey : String}
    {opts : ReserveOpts} {amb : Ambient}
    (hc : K (.reserve (newReservation workspaceID key amount idemKey opts amb))) (db : Db) :
    (protocol π).awp (ReserveFails K) (reserve workspaceID key amount idemKey opts amb)
      (Final (ReservePost K workspaceID key idemKey amb.newID)) [] none db := by
  unfold reserve
  split
  · exact awp_throw ⟨rfl, .inl rfl⟩
  split
  · exact awp_throw ⟨rfl, .inl rfl⟩
  refine awp_bind (awp_attempt (awp_stmt_auto ?_ fun db₁ hr₁ => ⟨trivial, fun _ held o ho => ?_⟩))
  · exact fun err db' => awp_reserveFailure opts (.store err) _ _ _ _ (.inl rfl) db'
  obtain rfl := Except.ok.inj ho
  refine ⟨[], .stay, ?_⟩
  cases hfound : db₁.reservationByIdemKey (workspaceID, key, idemKey) with
  | some r =>
    simp only [reads, Option.map_some]
    have hrefl : (protocol π).Rely none db₁ db₁ := Rely.refl (protocol_lawful L) hr₁.inv
    exact awp_pure ⟨rfl, reservePost_replay hrefl hfound⟩
  | none =>
    simp only [reads, Option.map_none]
    refine awp_bind (awp_attempt (awp_fail_mono (awp_mono (fun res done' t' db' hq => awp_pure hq)
      (awp_reserveTx L hK hc db₁)) ?_))
    rintro err done' t' hfail db'
    obtain rfl := hfail.1
    exact awp_reserveFailure opts err _ _ _ _ hfail.atMost db'

/-! ## Consume -/

/-- A call with a key leaves the key claimed; a call without one is no replay. -/
def ConsumePost (K : Effect → Prop) (workspaceID key idemKey : String) (res : ConsumeResult)
    (done : List Effect) (db : Db) : Prop :=
  Once K res.replay done ∧ (consumeKey idemKey = none → res.replay = false) ∧
    ∀ k, consumeKey idemKey = some k → (workspaceID, key, k) ∈ db.consumeIdems.map ConsumeIdem.key

theorem ConsumeAdmits.later {db db' db₁ db₂ : Db} {ck : CounterKey} {n : Int}
    (h : ConsumeAdmits π db ck n db₁ db₂) (hev : Evolves π db db')
    (hcounter : db.counters ck = db'.counters ck) : ConsumeAdmits π db' ck n db₁ db₂ where
  plan := .trans L h.plan hev
  grants := .trans L h.grants hev
  avail := hcounter ▸ h.avail

/-- `consumeOnce` inside a transaction: where it applies, the consumption is admitted. -/
theorem awp_consumeOnce {ck : CounterKey} {n : Int} {tx : Tx Resource Write} {done : List Effect}
    {R : Failure PgErr Webx.Error → List Effect → Option (Tx Resource Write) → Prop}
    {db₀ db : Db} {Q : Bool → List Effect → Option (Tx Resource Write) → Db → Prop}
    (hR : ∀ e tx', R (.store e) done (some tx')) (hplan : Evolves π db₀ db)
    (hgrants : ∀ db, (store.applyAll db tx.writes).grants = db.grants)
    (hcounters : ∀ db, (store.applyAll db tx.writes).counters = db.counters)
    (hfalse : ∀ tx' db', Q false done (some tx') db')
    (htrue : ∀ db' db₂, (protocol π).Rely (some tx) db db' → ConsumeAdmits π db' ck n db₀ db₂ →
      Q true done (some (tx.add (writes true (.addUsed ck n)))) db') :
    (protocol π).awp R (consumeOnce ck n (db₀.limit ck) ((db₀.planOf ck.workspaceID).mode = .soft))
      Q done (some tx) db := by
  unfold consumeOnce
  refine awp_ite (fun hsoft => ?_) fun _ => ?_
  · refine awp_stmt (fun e => hR e tx) fun db₁ hr₁ => ⟨trivial, fun _ held o ho => ?_⟩
    obtain rfl := eval_addUsed ho
    have hev := Evolves.trans L hplan hr₁.evolves
    exact htrue db₁ db₁ hr₁ ⟨hev, .refl L db₁, .inl (of_decide_eq_true hsoft)⟩
  · refine awp_bind (awp_read (fun db => db.granted ck) (fun _ _ _ ho => eval_sumGrants ho)
      (fun db => by simp only [Db.granted, hgrants]) (fun _ => trivial) (fun e => hR e tx)
      fun db₁ hr₁ => ?_)
    refine awp_stmt (fun e => hR e tx) fun db₂ hr₂ => ⟨trivial, fun _ held o ho => ?_⟩
    rcases eval_addUsedWithin ho with ⟨hv, -⟩ | ⟨rfl, hn, hfits⟩
    · rw [hv]
      exact hfalse _ _
    · rw [hcounters] at hfits
      have hr := hr₁.trans (protocol_lawful L) hr₂
      exact htrue db₂ db₁ hr ⟨.trans L hplan hr.evolves, hr₂.evolves, .inr ⟨hn, hfits⟩⟩

include hK in
/-- `consumeOnce` on its own: what it applies is committed at once. -/
theorem awp_consumeOnce_auto {ck : CounterKey} {n : Int} (hn : 0 < n)
    (hc : K (.consume ck n none)) {db₀ db : Db} (hplan : Evolves π db₀ db)
    {Q : Bool → List Effect → Option (Tx Resource Write) → Db → Prop}
    (hfalse : ∀ db', Q false [] none db') (htrue : ∀ db', Q true [.consume ck n none] none db') :
    (protocol π).awp (Fails K)
      (consumeOnce ck n (db₀.limit ck) ((db₀.planOf ck.workspaceID).mode = .soft)) Q [] none db := by
  have hmove : ∀ db' db₂, ConsumeAdmits π db' ck n db₀ db₂ → (protocol π).Moves []
      [.consume ck n none] db' (store.applyAll db' [.addUsed ck n]) := fun db' db₂ hadm =>
    moves_effect (hK _ hc) ⟨hn, (fun k hk => by cases hk), db₀, db₂, hadm⟩
  unfold consumeOnce
  refine awp_ite (fun hsoft => ?_) fun _ => ?_
  · refine awp_stmt_auto (fun _ => .nil _) fun db₁ hr₁ => ⟨trivial, fun _ held o ho => ?_⟩
    obtain rfl := eval_addUsed ho
    have hev := Evolves.trans L hplan hr₁.evolves
    have hadm : ConsumeAdmits π db₁ ck n db₀ db₁ :=
      ⟨hev, .refl L db₁, .inl (of_decide_eq_true hsoft)⟩
    exact ⟨[.consume ck n none], hmove db₁ db₁ hadm, htrue _⟩
  · refine awp_bind (awp_read_auto (fun db => db.granted ck) (fun _ _ _ ho => eval_sumGrants ho)
      (fun _ => trivial) (fun _ => .nil _) fun db₁ hr₁ => ?_)
    refine awp_stmt_auto (fun _ => .nil _) fun db₂ hr₂ => ⟨trivial, fun _ held o ho => ?_⟩
    rcases eval_addUsedWithin ho with ⟨hv, hw⟩ | ⟨rfl, hfit, hfits⟩
    · rw [hv, hw]
      exact ⟨[], .stay, hfalse _⟩
    · have hev := Evolves.trans L (Evolves.trans L hplan hr₁.evolves) hr₂.evolves
      have hadm : ConsumeAdmits π db₂ ck n db₀ db₁ := ⟨hev, hr₂.evolves, .inr ⟨hfit, hfits⟩⟩
      exact ⟨[.consume ck n none], hmove db₂ db₁ hadm, htrue _⟩

include hK in
theorem awp_consumeIdem {workspaceID key : String} {n : Int} (hn : 0 < n) {now : Time} {idem : String}
    (hc : K (.consume ⟨workspaceID, period now, key⟩ n (some idem))) {db₀ db : Db}
    (hplan : Evolves π db₀ db) :
    (protocol π).awp (Fails K)
      (consumeIdem ⟨workspaceID, period now, key⟩ n (db₀.limit ⟨workspaceID, period now, key⟩)
        ((db₀.planOf workspaceID).mode = .soft) idem)
      (Final fun res done db => Once K res.replay done ∧
        (workspaceID, key, idem) ∈ db.consumeIdems.map ConsumeIdem.key) [] none db := by
  unfold consumeIdem
  set ck : CounterKey := ⟨workspaceID, period now, key⟩ with hck
  refine awp_inTx (fun _ => .nil _) fun db₁ hr₁ => awp_bind (awp_stmt (fun _ => .nil _)
    fun db₂ hr₂ => ⟨trivial, fun _ held o ho => ?_⟩)
  have hplan₂ : Evolves π db₀ db₂ := .trans L (.trans L hplan hr₁.evolves) hr₂.evolves
  rcases eval_insertConsumeIdem ho with ⟨rfl, hclaimed⟩ | ⟨rfl, hfree⟩
  · refine awp_ite (fun h => by cases h) fun _ => awp_pure fun db₃ hr₃ => ⟨rfl, .replay, ?_⟩
    exact (hr₃.evolves.consumeIdems.map ConsumeIdem.key).subset hclaimed
  refine awp_ite (fun _ => ?_) fun h => absurd rfl h
  refine awp_bind (@awp_consumeOnce _ L ck _ _ _ _ _ _ _ (fun _ _ => .nil _) hplan₂ (fun _ => rfl)
    (fun _ => rfl) ?_ ?_)
  · refine fun tx' db' => awp_ite (fun h => by cases h) fun _ => ?_
    exact awp_bind (awp_rollback (fun _ => .nil _) fun _ _ => awp_throw (.nil _))
  intro db₃ db₄ hr₃ hadm
  refine awp_ite (fun _ => ?_) fun h => absurd rfl h
  refine awp_bind (awp_commit (fun _ => .nil _) fun db₅ hr₅ => ?_)
  have hkey₃ := hr₃.locked _ rfl (.consumeKey (consumeRow ck n idem).key)
    (by simp [writes, touches, consumeRow])
  have hkey₅ := hr₅.locked _ rfl (.consumeKey (consumeRow ck n idem).key)
    (by simp [writes, touches, consumeRow])
  have hfree₅ : (consumeRow ck n idem).key ∉ db₅.consumeIdems.map ConsumeIdem.key :=
    fun h => hfree (hkey₃.2 (hkey₅.2 h))
  have hadm₅ := hadm.later L hr₅.evolves (rely_counter hr₅ (by simp [writes, touches]))
  refine ⟨[.consume ck n (some idem)], moves_effect (hK _ hc) ⟨hn, ?_, db₀, db₄, hadm₅⟩, .lost hc, ?_⟩
  · rintro k ⟨⟩
    exact hfree₅
  · refine awp_pure fun db₆ hr₆ => ⟨rfl, .applied hc, ?_⟩
    have hrow : consumeRow ck n idem ∈ db₆.consumeIdems :=
      hr₆.evolves.consumeIdems.subset (List.mem_append_right _ (List.mem_singleton_self _))
    exact List.mem_map_of_mem hrow

include hK in
theorem awp_consumeWith {workspaceID key : String} {n : Int} {now : Time} {idemKey : String}
    (hc : K (.consume ⟨workspaceID, period now, key⟩ n (consumeKey idemKey))) (db : Db) :
    (protocol π).awp (Fails K) (consumeWith workspaceID key n now idemKey)
      (Final (ConsumePost K workspaceID key idemKey)) [] none db := by
  unfold consumeWith
  refine awp_ite (fun _ => awp_throw (.nil _)) fun hn => ?_
  refine awp_bind (awp_planLimitsFor_auto (fun _ => .nil _) fun db₁ hr₁ => ?_)
  refine awp_ite (fun hidem => ?_) fun hidem => ?_
  · have hkey : consumeKey idemKey = none := if_pos hidem
    rw [hkey] at hc
    refine awp_bind (awp_consumeOnce_auto L hK (not_le.1 hn) hc (Evolves.refl L db₁) ?_ ?_)
    · exact fun db' => awp_ite (fun h => by cases h) fun _ => awp_throw (.nil _)
    · refine fun db' => awp_ite (fun _ => awp_pure ⟨rfl, .applied hc, fun _ => rfl, fun k hk => ?_⟩)
        fun h => absurd rfl h
      rw [hkey] at hk
      cases hk
  · have hkey : consumeKey idemKey = some (Strings.trimSpace idemKey) := if_neg hidem
    rw [hkey] at hc
    refine awp_mono ?_ (awp_consumeIdem L hK (not_le.1 hn) hc (Evolves.refl L db₁))
    rintro res done' t' db' ⟨ht, honce, hclaimed⟩
    refine ⟨ht, honce, fun hnone => ?_, fun k hk => ?_⟩
    · rw [hkey] at hnone
      cases hnone
    · rw [hkey] at hk
      cases hk
      exact hclaimed

/-! ## Release -/

omit L in
include hK in
/-- A release of usage. -/
theorem awp_release {workspaceID key : String} {n : Int} {now : Time}
    (hc : K (.free ⟨workspaceID, period now, key⟩ n)) (db : Db) :
    (protocol π).awp (Fails K) (release workspaceID key n now)
      (Final fun _ done _ => AtMostOnce K done) [] none db := by
  refine awp_stmt_auto (fun _ => .nil _) fun db₁ hr₁ => ⟨trivial, fun _ held o ho => ?_⟩
  rcases eval_freeUsed ho with ⟨-, rfl⟩ | rfl
  · exact ⟨[], .stay, rfl, .inl rfl⟩
  · exact ⟨[.free _ n], moves_effect (hK _ hc) trivial, rfl, .inr ⟨_, hc, rfl⟩⟩

/-! ## Grants -/

/-- The grant's key is taken, by the call itself where it has unlocked the grant. -/
def GrantPost (K : Effect → Prop) (workspaceID key reason refID : String) (unlocked : Bool)
    (done : List Effect) (db : Db) : Prop :=
  Once K (!unlocked) done ∧ (workspaceID, key, reason, refID) ∈ db.grants.map Grant.key

omit L in
include hK in
theorem awp_insertGrant_auto {g : Grant} (hc : K (.grant [g])) (db : Db) :
    (protocol π).awp (Fails K) (Action.query (.insertGrant g) : Act Bool)
      (Final (GrantPost K g.workspaceID g.counterKey g.reason g.refID)) [] none db := by
  refine awp_stmt_auto (fun _ => .nil _) fun db₁ hr₁ => ⟨trivial, fun _ held o ho => ?_⟩
  rcases eval_insertGrant ho with ⟨rfl, htaken⟩ | ⟨rfl, hpos, hfree⟩
  · exact ⟨[], .stay, rfl, .replay, htaken⟩
  · refine ⟨[.grant [g]], moves_effect (hK _ hc) ⟨?_, by simp⟩, rfl, .applied hc, ?_⟩
    · simpa using ⟨hpos, by simpa using hfree⟩
    · exact List.mem_map_of_mem (List.mem_append_right db₁.grants (List.mem_singleton_self g))

omit L in
include hK in
theorem awp_grant {workspaceID key reason refID : String} {amount : Int} {now : Time}
    (hc : K (.grant [⟨workspaceID, period now, key, amount, reason, refID, none⟩])) (db : Db) :
    (protocol π).awp (Fails K) (grant workspaceID key reason refID amount now)
      (Final (GrantPost K workspaceID key reason refID)) [] none db :=
  awp_ite (fun _ => awp_throw (.nil _)) fun _ => awp_insertGrant_auto hK hc db

omit L in
include hK in
theorem awp_grantPeriodic {workspaceID key reason refID : String} {amount : Int} {cycle : String}
    {now : Time}
    (hc : K (.grant [⟨workspaceID, period now, key, amount, reason, refID, some cycle⟩])) (db : Db) :
    (protocol π).awp (Fails K) (grantPeriodic workspaceID key reason refID amount cycle now)
      (Final (GrantPost K workspaceID key reason refID)) [] none db :=
  awp_ite (fun _ => awp_throw (.nil _)) fun _ => awp_ite (fun _ => awp_throw (.nil _)) fun _ =>
    awp_insertGrant_auto hK hc db

/-- Where the caller of `GrantTx` rolls back, nothing is committed. -/
def GrantTxPost (K : Effect → Prop) (workspaceID key reason refID : String) (commits unlocked : Bool)
    (done : List Effect) (db : Db) : Prop :=
  if commits then GrantPost K workspaceID key reason refID unlocked done db else done = []

omit L in
include hK in
theorem awp_grantTx {workspaceID key reason refID : String} {amount : Int} {now : Time}
    (commits : Bool)
    (hc : K (.grant [⟨workspaceID, period now, key, amount, reason, refID, none⟩])) (db : Db) :
    (protocol π).awp (Fails K) (grantTx workspaceID key reason refID amount now commits)
      (Final (GrantTxPost K workspaceID key reason refID commits)) [] none db := by
  refine awp_inTx (fun _ => .nil _) fun db₁ hr₁ => awp_bind
    (awp_ite (fun _ => awp_throw (.nil _)) fun _ => ?_)
  have keep : ∀ {t : Option (Tx Resource Write)} {db db' : Db}, (protocol π).Rely t db db' →
      (workspaceID, key, reason, refID) ∈ db.grants.map Grant.key →
      (workspaceID, key, reason, refID) ∈ db'.grants.map Grant.key :=
    fun hr h => (hr.evolves.grants.map Grant.key).subset h
  refine awp_stmt (fun _ => .nil _) fun db₂ hr₂ => ⟨trivial, fun _ held o ho => ?_⟩
  cases commits with
  | false =>
    exact awp_ite (fun h => by cases h) fun _ => awp_pure fun _ _ => ⟨rfl, rfl⟩
  | true =>
    refine awp_ite (fun _ => ?_) fun h => absurd rfl h
    rcases eval_insertGrant ho with ⟨rfl, htaken⟩ | ⟨rfl, hpos, hfree⟩
    · refine awp_bind (awp_commit (fun _ => .nil _) fun db₃ hr₃ => ⟨[], .stay, fun _ => .nil _, ?_⟩)
      exact awp_pure fun db₄ hr₄ => ⟨rfl, .replay, keep hr₄ (keep hr₃ htaken)⟩
    · set g : Grant := ⟨workspaceID, period now, key, amount, reason, refID, none⟩
      refine awp_bind (awp_commit (fun _ => .nil _) fun db₃ hr₃ => ?_)
      have hkey := hr₃.locked _ rfl (.grantKey g.key) (by simp [writes, touches])
      have hfree₃ : g.key ∉ db₃.grants.map Grant.key := fun h => hfree (hkey.2 h)
      refine ⟨[.grant [g]], moves_effect (hK _ hc) ⟨?_, by simp⟩, .lost hc, ?_⟩
      · simpa using ⟨hpos, by simpa using hfree₃⟩
      · refine awp_pure fun db₄ hr₄ => ⟨rfl, .applied hc, keep hr₄ ?_⟩
        exact List.mem_map_of_mem (List.mem_append_right db₃.grants (List.mem_singleton_self g))

omit L in
theorem issueAll_spec (period : String) (ts : List Grant)
    (taken : List (String × String × String × String)) :
    ((issueAll period taken ts).map Grant.key).Nodup ∧
      ∀ g ∈ issueAll period taken ts, g.key ∉ taken ∧ ∃ t ∈ ts, g = t.issue period := by
  induction ts generalizing taken with
  | nil => simp [issueAll]
  | cons t ts ih =>
    unfold issueAll
    split
    · obtain ⟨hnodup, hspec⟩ := ih taken
      refine ⟨hnodup, fun g hg => ?_⟩
      obtain ⟨hfree, t', ht', rfl⟩ := hspec g hg
      exact ⟨hfree, t', List.mem_cons_of_mem _ ht', rfl⟩
    · rename_i hfree
      obtain ⟨hnodup, hspec⟩ := ih ((t.issue period).key :: taken)
      refine ⟨?_, fun g hg => ?_⟩
      · refine List.nodup_cons.2 ⟨fun hmem => ?_, hnodup⟩
        obtain ⟨g, hg, hkey⟩ := List.mem_map.1 hmem
        exact (hspec g hg).1 (hkey ▸ List.mem_cons_self)
      · rcases List.mem_cons.1 hg with rfl | hg
        · exact ⟨hfree, t, List.mem_cons_self, rfl⟩
        · obtain ⟨hg', t', ht', rfl⟩ := hspec g hg
          exact ⟨fun h => hg' (List.mem_cons_of_mem _ h), t', List.mem_cons_of_mem _ ht', rfl⟩

def GrantIssued.of (now : Time) (g : Grant) : GrantIssued :=
  ⟨g.workspaceID, g.counterKey, g.reason, g.refID, g.amount, Quota.period now⟩

/-- What the refresh answers is what it has granted. -/
def RefreshPost (now : Time) (issued : List GrantIssued) (done : List Effect) (_ : Db) : Prop :=
  ∃ gs, issued = gs.map (GrantIssued.of now) ∧ done = [.grant gs]

include hK in
theorem awp_refreshPeriodicGrants {now : Time}
    (hc : ∀ gs, (∀ g ∈ gs, ∃ t : Grant, g = t.issue (period now)) → K (.grant gs)) (db : Db) :
    (protocol π).awp (Fails K) (refreshPeriodicGrants now) (Final (RefreshPost now)) [] none db := by
  refine awp_bind (awp_stmt_auto (fun _ => .nil _) fun db₁ hr₁ => ⟨trivial, fun _ held o ho => ?_⟩)
  obtain ⟨gs, hgs, rfl⟩ := eval_refreshGrants ho
  obtain ⟨hnodup, hspec⟩ := issueAll_spec (period now) (templatesFor (period now) db₁.grants)
    (db₁.grants.map Grant.key)
  rw [← hgs] at hnodup hspec
  have henabled : Enabled π db₁ (.grant gs) := by
    refine ⟨fun g hg => ?_, hnodup⟩
    obtain ⟨hfree, t, ht, rfl⟩ := hspec g hg
    exact ⟨(L.inv hr₁.inv).grants t (List.mem_of_mem_filter ht), hfree⟩
  have hissued : ∀ g ∈ gs, ∃ t : Grant, g = t.issue (period now) := by
    intro g hg
    obtain ⟨-, t, -, rfl⟩ := hspec g hg
    exact ⟨t, rfl⟩
  exact ⟨[.grant gs], moves_effect (hK _ (hc gs hissued)) henabled, awp_pure ⟨rfl, gs, rfl, rfl⟩⟩

end programs

/-! ## All calls -/

/-- What a call that is answered with success has committed, and what the tables
show from then on. -/
def Post (c : Call) (reply : Reply) (done : List Effect) (db : Db) : Prop :=
  match c, reply with
  | .reserve ws key _ idem _ amb, .reserve res => ReservePost c.Commits ws key idem amb.newID res done db
  | .settle id _ idem, .settle res => SettlePost c.Commits id idem res done db
  | .releaseReservation id _ idem, .release res => ReleasePost c.Commits id idem res done db
  | .expireDueReservations now _, .expired rs => ExpirePost now rs done db
  | .consumeWith ws key _ _ idem, .consume res => ConsumePost c.Commits ws key idem res done db
  | .consume _ _ _ _, .done => Once c.Commits false done
  | .release _ _ _ _, .done => AtMostOnce c.Commits done
  | .grant ws key reason ref _ _, .unlocked b
  | .grantPeriodic ws key reason ref _ _ _, .unlocked b => GrantPost c.Commits ws key reason ref b done db
  | .grantTx ws key reason ref _ _ commits, .unlocked b =>
      GrantTxPost c.Commits ws key reason ref commits b done db
  | .refreshPeriodicGrants now, .issued gs => RefreshPost now gs done db
  | _, _ => False

/-- `Reserve` answers a failure of the store as refused; no other call does. -/
def Call.IsReserve : Call → Prop
  | .reserve .. => True
  | _ => False

/-- What a call has committed once it has ended, and what the tables show from then on. -/
def EndPost (e : Ended) (done : List Effect) (db : Db) : Prop :=
  match e.2 with
  | .ok reply => Post e.1 reply done db
  | .error f => AtMostOnce e.1.Commits done ∧ (¬ e.1.IsReserve → ∀ w, f = .app w → done = [])

/-- The calls that the policy lets sessions make. -/
def Policy.admits (π : Policy) (c : Call) : Prop := ∀ e, c.Commits e → π.commits e

/-- The programs of the sessions. -/
def Policy.programs (π : Policy) (m : Script (TxOp Stmt PgErr) Ended) : Prop :=
  ∃ c, π.admits c ∧ m = c.program

section programs

variable {π : Policy} (L : π.Lawful)
include L

omit L in
theorem awp_map {α : Type} {m : Act α} {Q : α → List Effect → Db → Prop} {f : α → Reply} {c : Call}
    {R : Failure PgErr Webx.Error → List Effect → Option (Tx Resource Write) → Prop} {db : Db}
    (h : (protocol π).awp R m (Final Q) [] none db)
    (hf : ∀ a done db', Q a done db' → Post c (f a) done db') :
    (protocol π).awp R (f <$> m) (Final (Post c)) [] none db := by
  rw [map_eq_pure_bind]
  exact awp_bind (awp_mono (fun a done t' db' hq => awp_pure ⟨hq.1, hf a done db' hq.2⟩) h)

/-- How a call fails. -/
def Call.Fails (c : Call) (f : Failure PgErr Webx.Error) (done : List Effect)
    (t : Option (Tx Resource Write)) : Prop :=
  t = none ∧ AtMostOnce c.Commits done ∧ (¬ c.IsReserve → ∀ w, f = .app w → done = [])

omit L in
theorem Fails.call {c : Call} {f : Failure PgErr Webx.Error} {done : List Effect}
    {t : Option (Tx Resource Write)} (h : Fails c.Commits f done t) : c.Fails f done t := by
  refine ⟨h.1, h.atMost, ?_⟩
  rintro - w rfl
  exact h.2

theorem awp_exec {c : Call} (hc : π.admits c) (db : Db) :
    (protocol π).awp c.Fails c.exec (Final (Post c)) [] none db := by
  have hfails : ∀ {α : Type} {m : Act α} {Q : α → List Effect → Option (Tx Resource Write) → Db → Prop},
      (protocol π).awp (Quota.Fails c.Commits) m Q [] none db →
      (protocol π).awp c.Fails m Q [] none db :=
    fun h => awp_fail_mono h fun _ _ _ => Fails.call
  cases c with
  | reserve ws key amount idem opts amb =>
    refine awp_map (awp_fail_mono (awp_reserve L hc rfl db) ?_) fun _ _ _ h => h
    exact fun f done t' h => ⟨h.1, h.2, fun hno => absurd trivial hno⟩
  | settle id actual idem =>
    exact awp_map (hfails (awp_settle L hc (fun r hr => ⟨r, hr, rfl⟩) db)) fun _ _ _ h => h
  | releaseReservation id amount idem =>
    exact awp_map (hfails (awp_releaseReservation L hc amount (fun r t hr => ⟨r, t, hr, rfl⟩) db))
      fun _ _ _ h => h
  | expireDueReservations now limit =>
    exact awp_map (hfails (awp_expireDueReservations L hc limit (fun rows => ⟨rows, rfl⟩) db))
      fun _ _ _ h => h
  | consume ws key n now =>
    have hkey : consumeKey "" = none := by decide
    have hrun : (protocol π).awp (Quota.Fails (Call.consume ws key n now).Commits)
        (Quota.consume ws key n now)
        (Final fun _ done _ => Once (Call.consume ws key n now).Commits false done) [] none db := by
      refine awp_bind (awp_mono ?_ (awp_consumeWith L hc (hkey ▸ rfl) db))
      rintro res done t' db' ⟨ht, honce, hfirst, -⟩
      exact awp_pure ⟨ht, hfirst hkey ▸ honce⟩
    exact awp_map (hfails hrun) fun _ _ _ h => h
  | consumeWith ws key n now idem =>
    exact awp_map (hfails (awp_consumeWith L hc rfl db)) fun _ _ _ h => h
  | release ws key n now => exact awp_map (hfails (awp_release hc rfl db)) fun _ _ _ h => h
  | grant ws key reason ref amount now =>
    exact awp_map (hfails (awp_grant hc rfl db)) fun _ _ _ h => h
  | grantTx ws key reason ref amount now commits =>
    exact awp_map (hfails (awp_grantTx hc commits rfl db)) fun _ _ _ h => h
  | grantPeriodic ws key reason ref amount cycle now =>
    exact awp_map (hfails (awp_grantPeriodic hc rfl db)) fun _ _ _ h => h
  | refreshPeriodicGrants now =>
    exact awp_map (hfails (awp_refreshPeriodicGrants L hc (fun gs hgs => ⟨gs, hgs, rfl⟩) db))
      fun _ _ _ h => h

/-- Every program keeps the protocol. -/
theorem wp_program {c : Call} (hc : π.admits c) (db : Db) :
    (protocol π).wp c.program (Final EndPost) [] none db :=
  (wp_bind _ _).2 (awp_run (awp_exec L hc db) (fun _ _ _ _ h => h) fun _ _ _ _ h => h)

omit L in
/-- What the tables show stays shown. -/
theorem post_stable {c : Call} {reply : Reply} {done : List Effect} {db db' : Db}
    (hev : Evolves π db db') (h : Post c reply done db) : Post c reply done db' := by
  have hgrant : ∀ {K ws key reason ref b}, GrantPost K ws key reason ref b done db →
      GrantPost K ws key reason ref b done db' :=
    fun h => ⟨h.1, (hev.grants.map Grant.key).subset h.2⟩
  unfold Post at h ⊢
  split at h
  · refine ⟨h.1, fun hdeg => ?_⟩
    obtain ⟨honce, hid, r, hr, hrid, hkey⟩ := h.2 hdeg
    obtain ⟨r', hr', hb⟩ := hev.reservations r hr
    exact ⟨honce, hid, r', hr', hb.id.trans hrid, hb.idemKey.trans hkey⟩
  · obtain ⟨honce, r, hr, hid, hstatus, hrest⟩ := h
    obtain ⟨r', hr', hb⟩ := hev.reservations r hr
    have heq := hb.ended (by simp [hstatus])
    exact ⟨honce, r, heq ▸ hr', hid, hstatus, hrest⟩
  · obtain ⟨honce, r, hr, hid, hkey⟩ := h
    obtain ⟨r', hr', hb⟩ := hev.reservations r hr
    exact ⟨honce, r', hr', hb.id.trans hid, hb.releaseKeys.subset hkey⟩
  · exact h
  · exact ⟨h.1, h.2.1, fun k hk => (hev.consumeIdems.map ConsumeIdem.key).subset (h.2.2 k hk)⟩
  · exact h
  · exact h
  · exact hgrant h
  · exact hgrant h
  · unfold GrantTxPost at h ⊢
    split
    · rename_i hc
      rw [if_pos hc] at h
      exact hgrant h
    · rename_i hc
      rwa [if_neg hc] at h
  · exact h
  · exact h

omit L in
theorem endPost_stable {e : Ended} {done : List Effect} {db db' : Db} (hev : Evolves π db db')
    (h : EndPost e done db) : EndPost e done db' := by
  unfold EndPost at h ⊢
  split
  · rename_i reply he
    rw [he] at h
    exact post_stable hev h
  · rename_i f he
    rw [he] at h
    exact h

/-- A run of the quota service: any number of sessions, interleaved statement by statement. -/
abbrev QuotaRun (π : Policy) (db₀ : Db) :=
  Run (Pool.Next (protocol π).machine π.programs)
    (.idle (.quiet db₀) : Pool (TxOp Stmt PgErr) (Store.Sys Db Resource Write) Ended)

/-- Every run keeps the sessions' promises, and its commits are effects. -/
theorem run_sound {db₀ : Db} (h₀ : π.J db₀)
    {past : List (Pool (TxOp Stmt PgErr) (Store.Sys Db Resource Write) Ended)}
    {p : Pool (TxOp Stmt PgErr) (Store.Sys Db Resource Write) Ended} (h : QuotaRun π db₀ past p) :
    ∃ log cur, Good (protocol π) EndPost cur p ∧
      Journal (protocol π) π.programs db₀ past p log cur := by
  refine sound (protocol_lawful L) ?_ ?_ h₀ h
  · rintro m ⟨c, hc, rfl⟩ db -
    exact wp_program L hc db
  · exact fun e done db db' _ hev he => endPost_stable hev he

end programs

/-! ## Calls one after the other -/

/-- The calls that settle nothing are allowed by every policy. -/
def settlesNothing : {β : Type} → TxOp Stmt PgErr β → Bool
  | _, .stmt (.settleCounter _ _ _) => false
  | _, _ => true

theorem allows_of_settlesNothing (π : Policy) {β : Type} (o : TxOp Stmt PgErr β)
    (h : settlesNothing o = true) : (protocol π).allows o := by
  cases o with
  | stmt s =>
    cases s
    case settleCounter => cases h
    all_goals trivial
  | _ => trivial

/-- The tables after the calls, made one after the other. -/
def runCalls (db : Db) (cs : List Call) : Db :=
  cs.foldl (fun db c => (store.runSolo c.program db).2.2) db

/-- The calls, made one after the other, all end without an open transaction and
settle nothing. -/
def plainCalls : Db → List Call → Bool
  | _, [] => true
  | db, c :: cs => c.program.runAll store.solo settlesNothing (none, db) &&
      (store.runSolo c.program db).2.1 = none && plainCalls (store.runSolo c.program db).2.2 cs

/-- Calls made one after the other are a run. -/
theorem quotaRun_calls {π : Policy} {cs : List Call} {db : Db} (hcs : ∀ c ∈ cs, π.admits c)
    (h : plainCalls db cs = true) :
    ∃ past, QuotaRun π db past (.idle (.quiet (runCalls db cs))) := by
  induction cs generalizing db with
  | nil => exact ⟨[], .start⟩
  | cons c cs ih =>
    simp only [plainCalls, Bool.and_eq_true, decide_eq_true_eq] at h
    obtain ⟨⟨hall, hend⟩, hrest⟩ := h
    have hone : ∃ past, QuotaRun π db past (.idle (.quiet (store.runSolo c.program db).2.2)) :=
      store.runs_solo (fun o ho => allows_of_settlesNothing π o ho)
        ⟨c, hcs c List.mem_cons_self, rfl⟩ hall hend
    obtain ⟨past, hrun⟩ := hone
    obtain ⟨past', hrun'⟩ := ih (fun c' hc' => hcs c' (List.mem_cons_of_mem _ hc')) hrest
    exact ⟨_, hrun.trans hrun'⟩

/-- Calls made one after the other take the pool to the end of the last of them. -/
theorem quotaRun_last {π : Policy} (db : Db) (cs : List Call) (c : Call)
    (hcs : ∀ c' ∈ cs, π.admits c') (hc : π.admits c) (h : plainCalls db cs = true)
    (hlast : plainCalls (runCalls db cs) [c] = true) :
    ∃ past p, QuotaRun π db past p ∧ p.shared.db = runCalls db (cs ++ [c]) ∧
      p.session 0 = some (.ret (store.runSolo c.program (runCalls db cs)).1) := by
  obtain ⟨past, hrun⟩ := quotaRun_calls hcs h
  simp only [plainCalls, Bool.and_true, Bool.and_eq_true, decide_eq_true_eq] at hlast
  obtain ⟨past', hrun'⟩ : ∃ past', QuotaRun π (runCalls db cs) past' (Store.alone none
      (store.runSolo c.program (runCalls db cs)).2.2
      (some (.ret (store.runSolo c.program (runCalls db cs)).1))) :=
    store.runs_to_end (fun o ho => allows_of_settlesNothing π o ho) ⟨c, hc, rfl⟩ hlast.1 hlast.2
  refine ⟨_, _, hrun.trans hrun', ?_, Store.alone_session _⟩
  simp [runCalls, Store.alone]

end Ploykit.Quota

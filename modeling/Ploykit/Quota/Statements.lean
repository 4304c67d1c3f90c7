import Mathlib.Data.List.Sort
import Ploykit.Lib.RowLock
import Ploykit.Quota.Model

/-!
# Quota statements

One constructor of `Stmt` for each statement of the package, except that the
hard-mode upsert of `consumeOnce` is two: its subselect reads the grants in the
snapshot taken when the statement starts (`sumGrants`), while the row it updates
is the latest one, after any wait for its lock (`addUsedWithin`).

`eval` gives the outcome of a statement on the tables that the session sees.
Arithmetic that leaves bigint and rows that break a CHECK are errors.
-/

namespace Ploykit.Quota

open Lib

/-- A failure of the store. -/
inductive PgErr where
  | numericOutOfRange
  | checkViolation
  | uniqueViolation
  | noRows
  | unavailable
  deriving DecidableEq, Repr

inductive Stmt : Type → Type
  | planLimitsFor (workspaceID : String) : Stmt (Option Plan)
  | reservationIDByIdemKey (workspaceID key idemKey : String) : Stmt (Option String)
  | lockCounter (ck : CounterKey) : Stmt Counter
  | sumGrants (ck : CounterKey) : Stmt Int
  | addReserved (ck : CounterKey) (amount : Int) : Stmt Unit
  | insertReservation (r : Reservation) : Stmt Bool
  | lockReservation (id : String) : Stmt (Option Reservation)
  | settleCounter (ck : CounterKey) (actual outstanding : Int) : Stmt Unit
  | settleReservation (id : String) (actual : Int) (idem : String) : Stmt Unit
  | unreserve (ck : CounterKey) (amount : Int) : Stmt Unit
  | releaseReservation (id : String) (amount : Int) (idem : String) : Stmt Unit
  | expireReservations (now : Time) (limit : Int) : Stmt (List Reservation)
  | unreserveAll (rows : List (CounterKey × Int)) : Stmt Unit
  | insertConsumeIdem (c : ConsumeIdem) : Stmt Bool
  | addUsed (ck : CounterKey) (n : Int) : Stmt Bool
  | addUsedWithin (ck : CounterKey) (n limit granted : Int) : Stmt Bool
  | freeUsed (ck : CounterKey) (n : Int) : Stmt Unit
  | insertGrant (g : Grant) : Stmt Bool
  | refreshGrants (period : String) : Stmt (List Grant)

/-! ## Checks -/

def checkBigint (x : Int) : Except PgErr Unit :=
  if Bigint x then .ok () else .error .numericOutOfRange

/-- bigint columns and CHECK (used >= 0) -/
def checkCounter (c : Counter) : Except PgErr Unit := do
  checkBigint c.used
  checkBigint c.reserved
  if 0 ≤ c.used then .ok () else .error .checkViolation

/-- int column, CHECK (amount > 0) and CHECK (period_cycle IS NULL OR period_cycle IN ('monthly')) -/
def checkGrant (g : Grant) : Except PgErr Unit :=
  if ¬ (-2 ^ 31 ≤ g.amount ∧ g.amount < 2 ^ 31) then .error .numericOutOfRange
  else if ¬ 0 < g.amount then .error .checkViolation
  else if g.periodCycle = none ∨ g.periodCycle = some "monthly" then .ok ()
  else .error .checkViolation

/-! ## Row sources -/

/-- ORDER BY expires_at, id -/
def dueBefore (a b : Reservation) : Prop :=
  a.expiresAt < b.expiresAt ∨ a.expiresAt = b.expiresAt ∧ a.id ≤ b.id

instance (a b : Reservation) : Decidable (dueBefore a b) := inferInstanceAs (Decidable (_ ∨ _))

/-- The due reservations that the expiry sweep picks; those locked by others are skipped. -/
def dueReservations (db : Db) (held : Resource → Bool) (now : Time) (limit : Int) :
    List Reservation :=
  ((db.reservations.filter fun r =>
    r.status = .reserved ∧ r.expiresAt ≤ now ∧ held (.reservation r.id) = false).insertionSort
      dueBefore).take limit.toNat

/-- The month's row of a template: `t.ref_id || '#' || $1`. -/
def Grant.issue (period : String) (t : Grant) : Grant :=
  { t with period := period, refID := t.refID ++ "#" ++ period, periodCycle := none }

/-- The templates that a refresh of the month considers. -/
def templatesFor (period : String) (grants : List Grant) : List Grant :=
  grants.filter fun t => t.periodCycle = some "monthly" ∧ t.period ≠ period

instance lawfulBEq_key : LawfulBEq (String × String × String × String) := inferInstance

/-- The month's rows that are inserted, one template after the other, when the
keys `taken` are in the table: ON CONFLICT DO NOTHING. -/
def issueAll (period : String) : List (String × String × String × String) → List Grant → List Grant
  | _, [] => []
  | taken, t :: ts =>
      if (t.issue period).key ∈ taken then issueAll period taken ts
      else t.issue period :: issueAll period ((t.issue period).key :: taken) ts

/-! ## Outcomes -/

/-- A statement that only reads. -/
def reads {β : Type} (value : β) : Outcome Resource Write β := ⟨value, [], []⟩

/-- A statement with one write, which locks what it touches. -/
def writes {β : Type} (value : β) (w : Write) : Outcome Resource Write β := ⟨value, touches w, [w]⟩

def eval : {β : Type} → Stmt β → (Resource → Bool) → Db → Except PgErr (Outcome Resource Write β)
  | _, .planLimitsFor ws, _, db => .ok (reads (db.plans ws))
  | _, .reservationIDByIdemKey ws key idem, _, db =>
      .ok (reads ((db.reservationByIdemKey (ws, key, idem)).map Reservation.id))
  | _, .lockCounter ck, _, db => .ok (writes (db.counter ck) (.touchCounter ck))
  | _, .sumGrants ck, _, db => do
      checkBigint (db.granted ck)
      return reads (db.granted ck)
  | _, .addReserved ck amount, _, db =>
      match db.counters ck with
      | none => return reads ()
      | some c => do
          checkCounter { c with reserved := c.reserved + amount }
          return writes () (.addReserved ck amount)
  | _, .insertReservation r, _, db => do
      checkBigint r.amount
      if ¬ 0 < r.amount then throw .checkViolation
      else if r.idemKey ∈ db.reservations.map Reservation.idemKey then return reads false
      else if r.id ∈ db.reservations.map Reservation.id then throw .uniqueViolation
      else return writes true (.insertReservation r)
  | _, .lockReservation id, _, db =>
      match db.reservation id with
      | none => return reads none
      | some r => return ⟨some r, [.reservation id], []⟩
  | _, .settleCounter ck actual outstanding, _, db => do
      checkCounter ⟨actual, 0⟩
      match db.counters ck with
      | none => pure ()
      | some c => do
          checkBigint (c.reserved - outstanding)
          checkCounter ⟨c.used + actual, greatest0 (c.reserved - outstanding)⟩
      return writes () (.settleCounter ck actual outstanding)
  | _, .settleReservation id actual idem, _, db =>
      match db.reservation id with
      | none => return reads ()
      | some r =>
          if r.status = .reserved then return writes () (.settleReservation id actual idem)
          else return reads ()
  | _, .unreserve ck amount, _, db =>
      match db.counters ck with
      | none => return reads ()
      | some c => do
          checkBigint (c.reserved - amount)
          return writes () (.unreserve [(ck, amount)])
  | _, .releaseReservation id amount idem, _, db =>
      match db.reservation id with
      | none => return reads ()
      | some r =>
          if r.status = .reserved then do
            checkBigint (r.releasedAmount + amount)
            return writes () (.releaseReservation id amount idem)
          else return reads ()
  | _, .expireReservations now limit, held, db =>
      let due := dueReservations db held now limit
      return writes (due.map Reservation.expire) (.expireReservations (due.map Reservation.id))
  | _, .unreserveAll rows, _, db => do
      -- the sums are numeric, so that only the new value of the column can overflow
      let rows := rows.filter fun row => (db.counters row.1).isSome
      if ∀ row ∈ rows, Bigint (greatest0 ((db.counter row.1).reserved - amountAt rows row.1)) then
        return writes () (.unreserve rows)
      else throw .numericOutOfRange
  | _, .insertConsumeIdem c, _, db => do
      checkBigint c.amount
      if c.key ∈ db.consumeIdems.map ConsumeIdem.key then return reads false
      else return writes true (.insertConsumeIdem c)
  | _, .addUsed ck n, _, db => do
      checkCounter ⟨n, 0⟩
      match db.counters ck with
      | none => pure ()
      | some c => checkCounter { c with used := c.used + n }
      return writes true (.addUsed ck n)
  | _, .addUsedWithin ck n limit granted, _, db => do
      checkBigint (limit + granted)
      if ¬ n ≤ limit + granted then return reads false
      else
        checkCounter ⟨n, 0⟩
        match db.counters ck with
        | none => return writes true (.addUsed ck n)
        | some c => do
            checkBigint (c.used + n)
            checkBigint (c.used + n + c.reserved)
            if c.used + n + c.reserved ≤ limit + granted then do
              checkCounter { c with used := c.used + n }
              return writes true (.addUsed ck n)
            else return ⟨false, [.counter ck], []⟩
  | _, .freeUsed ck n, _, db =>
      match db.counters ck with
      | none => return reads ()
      | some c => do
          checkBigint (c.used - n)
          return writes () (.freeUsed ck n)
  | _, .insertGrant g, _, db => do
      checkGrant g
      if g.key ∈ db.grants.map Grant.key then return reads false
      else return writes true (.insertGrants [g])
  | _, .refreshGrants period, _, db =>
      let gs := issueAll period (db.grants.map Grant.key) (templatesFor period db.grants)
      return writes gs (.insertGrants gs)

/-- The quota tables as a store. -/
def store : Store Stmt Db Resource Write PgErr := ⟨eval, apply⟩

/-! ## What a successful statement did -/

section spec

theorem Except.bind_eq_ok {ε α β : Type} {x : Except ε α} {f : α → Except ε β} {b : β} :
    (x >>= f) = .ok b ↔ ∃ a, x = .ok a ∧ f a = .ok b := by
  cases x with
  | error e => simp [bind, Except.bind]
  | ok a => simp [bind, Except.bind]

@[simp] theorem checkBigint_ok {x : Int} {u : Unit} : checkBigint x = .ok u ↔ Bigint x := by
  unfold checkBigint
  split <;> simp_all

@[simp] theorem checkCounter_ok {c : Counter} {u : Unit} :
    checkCounter c = .ok u ↔ Bigint c.used ∧ Bigint c.reserved ∧ 0 ≤ c.used := by
  unfold checkCounter
  simp only [Except.bind_eq_ok, checkBigint_ok, exists_const]
  split <;> simp_all

theorem checkGrant_pos {g : Grant} {u : Unit} (h : checkGrant g = .ok u) : 0 < g.amount := by
  unfold checkGrant at h
  split at h
  · cases h
  · split at h
    · cases h
    · rename_i hpos
      exact not_not.1 hpos

variable {held : Resource → Bool} {db : Db} {ck : CounterKey}

attribute [local simp] eval in
theorem eval_sumGrants {o : Outcome Resource Write Int}
    (h : eval (.sumGrants ck) held db = .ok o) : o = reads (db.granted ck) := by
  simp only [eval, Except.bind_eq_ok, checkBigint_ok, exists_const] at h
  exact (Except.ok.inj h.2).symm

variable {o : Outcome Resource Write Unit}

theorem eval_addReserved {amount : Int}
    (h : eval (.addReserved ck amount) held db = .ok o) :
    (db.counters ck = none ∧ o = reads ()) ∨ o = writes () (.addReserved ck amount) := by
  simp only [eval] at h
  split at h
  · exact .inl ⟨‹_›, (Except.ok.inj h).symm⟩
  · simp only [Except.bind_eq_ok, checkCounter_ok, exists_const] at h
    exact .inr (Except.ok.inj h.2).symm

theorem eval_insertReservation {r : Reservation} {o : Outcome Resource Write Bool}
    (h : eval (.insertReservation r) held db = .ok o) :
    (o = reads false ∧ r.idemKey ∈ db.reservations.map Reservation.idemKey) ∨
    (o = writes true (.insertReservation r) ∧ Bigint r.amount ∧ 0 < r.amount ∧
      r.idemKey ∉ db.reservations.map Reservation.idemKey ∧
      r.id ∉ db.reservations.map Reservation.id) := by
  simp only [eval, Except.bind_eq_ok, checkBigint_ok, exists_const] at h
  obtain ⟨hamount, h⟩ := h
  split at h
  · cases h
  · rename_i hpos
    split at h
    · exact .inl ⟨(Except.ok.inj h).symm, ‹_›⟩
    · split at h
      · cases h
      · exact .inr ⟨(Except.ok.inj h).symm, hamount, not_not.1 hpos, ‹_›, ‹_›⟩

theorem eval_lockReservation {id : String} {o : Outcome Resource Write (Option Reservation)}
    (h : eval (.lockReservation id) held db = .ok o) :
    (db.reservation id = none ∧ o = reads none) ∨
    ∃ r, db.reservation id = some r ∧ o = ⟨some r, [.reservation id], []⟩ := by
  simp only [eval] at h
  split at h
  · exact .inl ⟨‹_›, (Except.ok.inj h).symm⟩
  · exact .inr ⟨_, ‹_›, (Except.ok.inj h).symm⟩

theorem eval_settleCounter {actual outstanding : Int}
    (h : eval (.settleCounter ck actual outstanding) held db = .ok o) :
    o = writes () (.settleCounter ck actual outstanding) := by
  simp only [eval, Except.bind_eq_ok, checkCounter_ok, exists_const] at h
  obtain ⟨-, h⟩ := h
  split at h
  · exact (Except.ok.inj h).symm
  · simp only [Except.bind_eq_ok, checkBigint_ok, checkCounter_ok, exists_const] at h
    exact (Except.ok.inj h.2.2).symm

theorem eval_settleReservation {id idem : String} {actual : Int}
    (h : eval (.settleReservation id actual idem) held db = .ok o) :
    (o = reads () ∧ ∀ r, db.reservation id = some r → r.status ≠ .reserved) ∨
    o = writes () (.settleReservation id actual idem) := by
  simp only [eval] at h
  split at h
  · exact .inl ⟨(Except.ok.inj h).symm, by simp_all⟩
  · split at h
    · exact .inr (Except.ok.inj h).symm
    · exact .inl ⟨(Except.ok.inj h).symm, by simp_all⟩

theorem eval_unreserve {amount : Int}
    (h : eval (.unreserve ck amount) held db = .ok o) :
    (db.counters ck = none ∧ o = reads ()) ∨ o = writes () (.unreserve [(ck, amount)]) := by
  simp only [eval] at h
  split at h
  · exact .inl ⟨‹_›, (Except.ok.inj h).symm⟩
  · simp only [Except.bind_eq_ok, checkBigint_ok, exists_const] at h
    exact .inr (Except.ok.inj h.2).symm

theorem eval_releaseReservation {id idem : String} {amount : Int}
    (h : eval (.releaseReservation id amount idem) held db = .ok o) :
    (o = reads () ∧ ∀ r, db.reservation id = some r → r.status ≠ .reserved) ∨
    o = writes () (.releaseReservation id amount idem) := by
  simp only [eval] at h
  split at h
  · exact .inl ⟨(Except.ok.inj h).symm, by simp_all⟩
  · split at h
    · simp only [Except.bind_eq_ok, checkBigint_ok, exists_const] at h
      exact .inr (Except.ok.inj h.2).symm
    · exact .inl ⟨(Except.ok.inj h).symm, by simp_all⟩

theorem eval_expireReservations {now : Time} {limit : Int}
    {o : Outcome Resource Write (List Reservation)}
    (h : eval (.expireReservations now limit) held db = .ok o) :
    ∃ due, due = dueReservations db held now limit ∧
      o = writes (due.map Reservation.expire) (.expireReservations (due.map Reservation.id)) :=
  ⟨_, rfl, (Except.ok.inj h).symm⟩

theorem eval_unreserveAll {rows : List (CounterKey × Int)}
    (h : eval (.unreserveAll rows) held db = .ok o) :
    o = writes () (.unreserve (rows.filter fun row => (db.counters row.1).isSome)) := by
  simp only [eval] at h
  split at h
  · exact (Except.ok.inj h).symm
  · cases h

theorem eval_insertConsumeIdem {c : ConsumeIdem} {o : Outcome Resource Write Bool}
    (h : eval (.insertConsumeIdem c) held db = .ok o) :
    (o = reads false ∧ c.key ∈ db.consumeIdems.map ConsumeIdem.key) ∨
    (o = writes true (.insertConsumeIdem c) ∧ c.key ∉ db.consumeIdems.map ConsumeIdem.key) := by
  simp only [eval, Except.bind_eq_ok, checkBigint_ok, exists_const] at h
  obtain ⟨-, h⟩ := h
  split at h
  · exact .inl ⟨(Except.ok.inj h).symm, ‹_›⟩
  · exact .inr ⟨(Except.ok.inj h).symm, ‹_›⟩

theorem eval_addUsed {n : Int} {o : Outcome Resource Write Bool}
    (h : eval (.addUsed ck n) held db = .ok o) : o = writes true (.addUsed ck n) := by
  simp only [eval, Except.bind_eq_ok, checkCounter_ok, exists_const] at h
  obtain ⟨-, h⟩ := h
  split at h
  · exact (Except.ok.inj h).symm
  · simp only [Except.bind_eq_ok, checkCounter_ok, exists_const] at h
    exact (Except.ok.inj h.2).symm

theorem eval_addUsedWithin {n limit granted : Int}
    {o : Outcome Resource Write Bool}
    (h : eval (.addUsedWithin ck n limit granted) held db = .ok o) :
    (o.value = false ∧ o.writes = []) ∨
    (o = writes true (.addUsed ck n) ∧ n ≤ limit + granted ∧
      ∀ c, db.counters ck = some c → c.used + n + c.reserved ≤ limit + granted) := by
  simp only [eval, Except.bind_eq_ok, checkBigint_ok, exists_const] at h
  obtain ⟨-, h⟩ := h
  split at h
  · cases h
    exact .inl ⟨rfl, rfl⟩
  · rename_i hn
    simp only [Except.bind_eq_ok, checkCounter_ok, exists_const] at h
    obtain ⟨-, h⟩ := h
    split at h
    · exact .inr ⟨(Except.ok.inj h).symm, not_not.1 hn, by simp_all⟩
    · simp only [Except.bind_eq_ok, checkBigint_ok, exists_const] at h
      obtain ⟨-, -, h⟩ := h
      split at h
      · simp only [Except.bind_eq_ok, checkCounter_ok, exists_const] at h
        exact .inr ⟨(Except.ok.inj h.2).symm, not_not.1 hn, by simp_all⟩
      · cases h
        exact .inl ⟨rfl, rfl⟩

theorem eval_freeUsed {n : Int}
    (h : eval (.freeUsed ck n) held db = .ok o) :
    (db.counters ck = none ∧ o = reads ()) ∨ o = writes () (.freeUsed ck n) := by
  simp only [eval] at h
  split at h
  · exact .inl ⟨‹_›, (Except.ok.inj h).symm⟩
  · simp only [Except.bind_eq_ok, checkBigint_ok, exists_const] at h
    exact .inr (Except.ok.inj h.2).symm

theorem eval_insertGrant {g : Grant} {o : Outcome Resource Write Bool}
    (h : eval (.insertGrant g) held db = .ok o) :
    (o = reads false ∧ g.key ∈ db.grants.map Grant.key) ∨
    (o = writes true (.insertGrants [g]) ∧ 0 < g.amount ∧ g.key ∉ db.grants.map Grant.key) := by
  simp only [eval, Except.bind_eq_ok] at h
  obtain ⟨u, hcheck, h⟩ := h
  split at h
  · exact .inl ⟨(Except.ok.inj h).symm, ‹_›⟩
  · exact .inr ⟨(Except.ok.inj h).symm, checkGrant_pos hcheck, ‹_›⟩

theorem eval_refreshGrants {period : String} {o : Outcome Resource Write (List Grant)}
    (h : eval (.refreshGrants period) held db = .ok o) :
    ∃ gs, gs = issueAll period (db.grants.map Grant.key) (templatesFor period db.grants) ∧
      o = writes gs (.insertGrants gs) :=
  ⟨_, rfl, (Except.ok.inj h).symm⟩

end spec

theorem covered_reads {β : Type} {b : β} : ∀ w ∈ (reads b : Outcome Resource Write β).writes,
    ∀ r ∈ touches w, r ∈ (reads b : Outcome Resource Write β).locks := by
  simp [reads]

theorem covered_writes {β : Type} {b : β} {w₀ : Write} :
    ∀ w ∈ (writes b w₀ : Outcome Resource Write β).writes, ∀ r ∈ touches w,
      r ∈ (writes b w₀ : Outcome Resource Write β).locks := by
  simp [writes]

/-- A statement locks what its writes touch. -/
theorem eval_covered {β : Type} (s : Stmt β) (held : Resource → Bool) (db : Db)
    (o : Outcome Resource Write β) (h : eval s held db = .ok o) :
    ∀ w ∈ o.writes, ∀ r ∈ touches w, r ∈ o.locks := by
  cases s with
  | planLimitsFor ws => exact (Except.ok.inj h) ▸ covered_reads
  | reservationIDByIdemKey ws key idem => exact (Except.ok.inj h) ▸ covered_reads
  | lockCounter ck => exact (Except.ok.inj h) ▸ covered_writes
  | sumGrants ck => exact eval_sumGrants h ▸ covered_reads
  | addReserved ck amount =>
    rcases eval_addReserved h with ⟨-, rfl⟩ | rfl
    · exact covered_reads
    · exact covered_writes
  | insertReservation r =>
    rcases eval_insertReservation h with ⟨rfl, -⟩ | ⟨rfl, -⟩
    · exact covered_reads
    · exact covered_writes
  | lockReservation id =>
    rcases eval_lockReservation h with ⟨-, rfl⟩ | ⟨r, -, rfl⟩
    · exact covered_reads
    · simp
  | settleCounter ck actual outstanding => exact eval_settleCounter h ▸ covered_writes
  | settleReservation id actual idem =>
    rcases eval_settleReservation h with ⟨rfl, -⟩ | rfl
    · exact covered_reads
    · exact covered_writes
  | unreserve ck amount =>
    rcases eval_unreserve h with ⟨-, rfl⟩ | rfl
    · exact covered_reads
    · exact covered_writes
  | releaseReservation id amount idem =>
    rcases eval_releaseReservation h with ⟨rfl, -⟩ | rfl
    · exact covered_reads
    · exact covered_writes
  | expireReservations now limit =>
    obtain ⟨due, -, rfl⟩ := eval_expireReservations h
    exact covered_writes
  | unreserveAll rows => exact eval_unreserveAll h ▸ covered_writes
  | insertConsumeIdem c =>
    rcases eval_insertConsumeIdem h with ⟨rfl, -⟩ | ⟨rfl, -⟩
    · exact covered_reads
    · exact covered_writes
  | addUsed ck n => exact eval_addUsed h ▸ covered_writes
  | addUsedWithin ck n limit granted =>
    rcases eval_addUsedWithin h with ⟨-, hw⟩ | ⟨rfl, -⟩
    · simp [hw]
    · exact covered_writes
  | freeUsed ck n =>
    rcases eval_freeUsed h with ⟨-, rfl⟩ | rfl
    · exact covered_reads
    · exact covered_writes
  | insertGrant g =>
    rcases eval_insertGrant h with ⟨rfl, -⟩ | ⟨rfl, -⟩
    · exact covered_reads
    · exact covered_writes
  | refreshGrants period =>
    obtain ⟨gs, -, rfl⟩ := eval_refreshGrants h
    exact covered_writes

end Ploykit.Quota

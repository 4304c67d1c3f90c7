import Ploykit.Lib.Calendar
import Ploykit.Lib.Table

/-!
# Quota tables

The rows of `quota_counter`, `quota_reservation`, `quota_consume_idem` and
`quota_grant`, with the columns that some statement reads. The plan of a
workspace stands for the join of `workspace` and `plan`, its `limits` column
already parsed.

A `Write` is the effect of one statement on the tables, after its checks.
-/

namespace Ploykit.Quota

open Lib

/-! ## Rows -/

/-- The key of a counter. -/
structure CounterKey where
  workspaceID : String
  period : String
  counterKey : String
  deriving DecidableEq, Repr

structure Counter where
  used : Int
  reserved : Int
  deriving DecidableEq, Repr

inductive ReservationStatus where
  | reserved
  | settled
  | released
  | expired
  deriving DecidableEq, Repr

structure Reservation where
  id : String
  workspaceID : String
  quotaKey : String
  periodKey : String
  amount : Int
  settledAmount : Int
  releasedAmount : Int
  status : ReservationStatus
  idempotencyKey : String
  settleIdempotencyKey : Option String
  releaseIdempotencyKeys : List String
  expiresAt : Time
  createdAt : Time
  deriving DecidableEq, Repr

/-- A claimed idempotency key of `ConsumeWith`. -/
structure ConsumeIdem where
  workspaceID : String
  counterKey : String
  idemKey : String
  period : String
  amount : Int
  deriving DecidableEq, Repr

structure Grant where
  workspaceID : String
  period : String
  counterKey : String
  amount : Int
  reason : String
  refID : String
  periodCycle : Option String
  deriving DecidableEq, Repr

inductive LimitMode where
  | soft
  | hard
  deriving DecidableEq, Repr

/-- The plan of a workspace, as `parseLimits` returns it. -/
structure Plan where
  code : String
  limits : List (String × Int)
  mode : LimitMode
  deriving DecidableEq, Repr

structure Db where
  plans : String → Option Plan
  counters : CounterKey → Option Counter
  reservations : List Reservation
  consumeIdems : List ConsumeIdem
  grants : List Grant

/-! ## Arithmetic of int64 and bigint -/

/-- Two's complement arithmetic on 64 bits. -/
def wrap64 (x : Int) : Int := (x + 2 ^ 63) % 2 ^ 64 - 2 ^ 63

def Bigint (x : Int) : Prop := -2 ^ 63 ≤ x ∧ x < 2 ^ 63

instance (x : Int) : Decidable (Bigint x) := inferInstanceAs (Decidable (_ ∧ _))

theorem wrap64_of_bigint {x : Int} (h : Bigint x) : wrap64 x = x := by
  obtain ⟨hlo, hhi⟩ := h
  unfold wrap64
  omega

theorem wrap64_le {x : Int} (h : 0 ≤ x) : wrap64 x ≤ x := by
  unfold wrap64
  omega

/-! ## Keys -/

namespace Reservation

/-- What is still held by a live reservation. -/
def outstanding (r : Reservation) : Int := wrap64 (r.amount - r.releasedAmount)

def counter (r : Reservation) : CounterKey := ⟨r.workspaceID, r.periodKey, r.quotaKey⟩

/-- UNIQUE (workspace_id, quota_key, idempotency_key) -/
def idemKey (r : Reservation) : String × String × String :=
  (r.workspaceID, r.quotaKey, r.idempotencyKey)

end Reservation

/-- PRIMARY KEY (workspace_id, counter_key, idem_key) -/
def ConsumeIdem.key (c : ConsumeIdem) : String × String × String :=
  (c.workspaceID, c.counterKey, c.idemKey)

/-- UNIQUE (workspace_id, counter_key, reason, ref_id) -/
def Grant.key (g : Grant) : String × String × String × String :=
  (g.workspaceID, g.counterKey, g.reason, g.refID)

def Grant.counter (g : Grant) : CounterKey := ⟨g.workspaceID, g.period, g.counterKey⟩

namespace Db

/-- The counter, zero where it has no row. -/
def counter (db : Db) (ck : CounterKey) : Counter := (db.counters ck).getD ⟨0, 0⟩

/-- The sum of the grants of the counter's period. -/
def granted (db : Db) (ck : CounterKey) : Int :=
  ((db.grants.filter fun g => g.counter = ck).map Grant.amount).sum

def reservation (db : Db) (id : String) : Option Reservation :=
  Table.get Reservation.id db.reservations id

def reservationByIdemKey (db : Db) (k : String × String × String) : Option Reservation :=
  Table.get Reservation.idemKey db.reservations k

/-! ## Writes -/

/-- INSERT ... ON CONFLICT DO UPDATE -/
def upsertCounter (db : Db) (ck : CounterKey) (insert : Counter) (update : Counter → Counter) : Db :=
  { db with counters := Function.update db.counters ck (some ((db.counters ck).elim insert update)) }

/-- UPDATE of the counters for which `f` is defined. -/
def updateCounters (db : Db) (f : CounterKey → Counter → Counter) : Db :=
  { db with counters := fun ck => (db.counters ck).map (f ck) }

def updateReservations (db : Db) (ids : List String) (f : Reservation → Reservation) : Db :=
  { db with reservations := Table.modify Reservation.id ids f db.reservations }

end Db

/-- The amounts listed for the counter. -/
def amountAt (rows : List (CounterKey × Int)) (ck : CounterKey) : Int :=
  ((rows.filter fun row => row.1 = ck).map Prod.snd).sum

namespace Reservation

/-- The row after the UPDATE of `Settle`. -/
def settle (actual : Int) (idem : String) (r : Reservation) : Reservation :=
  if r.status = .reserved then
    { r with status := .settled, settledAmount := actual, settleIdempotencyKey := some idem }
  else r

/-- The row after the UPDATE of `ReleaseReservation`. -/
def release (amount : Int) (idem : String) (r : Reservation) : Reservation :=
  if r.status = .reserved then
    { r with
      releasedAmount := r.releasedAmount + amount
      releaseIdempotencyKeys := r.releaseIdempotencyKeys ++ [idem]
      status := if r.releasedAmount + amount ≥ r.amount then .released else r.status }
  else r

/-- The row after the UPDATE of `ExpireDueReservations`. -/
def expire (r : Reservation) : Reservation := { r with status := .expired }

end Reservation

inductive Write where
  | touchCounter (ck : CounterKey)
  | addReserved (ck : CounterKey) (amount : Int)
  | settleCounter (ck : CounterKey) (actual outstanding : Int)
  | unreserve (rows : List (CounterKey × Int))
  | addUsed (ck : CounterKey) (n : Int)
  | freeUsed (ck : CounterKey) (n : Int)
  | insertReservation (r : Reservation)
  | settleReservation (id : String) (actual : Int) (idem : String)
  | releaseReservation (id : String) (amount : Int) (idem : String)
  | expireReservations (ids : List String)
  | insertConsumeIdem (c : ConsumeIdem)
  | insertGrants (gs : List Grant)
  deriving DecidableEq, Repr

/-- GREATEST(0, x) -/
def greatest0 (x : Int) : Int := max 0 x

def apply (db : Db) : Write → Db
  | .touchCounter ck => db.upsertCounter ck ⟨0, 0⟩ id
  | .addReserved ck amount => db.updateCounters fun k c =>
      if k = ck then { c with reserved := c.reserved + amount } else c
  | .settleCounter ck actual outstanding => db.upsertCounter ck ⟨actual, 0⟩ fun c =>
      ⟨c.used + actual, greatest0 (c.reserved - outstanding)⟩
  | .unreserve rows => db.updateCounters fun k c =>
      if k ∈ rows.map Prod.fst then
        { c with reserved := greatest0 (c.reserved - amountAt rows k) }
      else c
  | .addUsed ck n => db.upsertCounter ck ⟨n, 0⟩ fun c => { c with used := c.used + n }
  | .freeUsed ck n => db.updateCounters fun k c =>
      if k = ck then { c with used := greatest0 (c.used - n) } else c
  | .insertReservation r => { db with reservations := db.reservations ++ [r] }
  | .settleReservation id actual idem => db.updateReservations [id] (Reservation.settle actual idem)
  | .releaseReservation id amount idem =>
      db.updateReservations [id] (Reservation.release amount idem)
  | .expireReservations ids => db.updateReservations ids Reservation.expire
  | .insertConsumeIdem c => { db with consumeIdems := db.consumeIdems ++ [c] }
  | .insertGrants gs => { db with grants := db.grants ++ gs }

/-! ## What a write touches -/

inductive Resource where
  | counter (ck : CounterKey)
  | reservation (id : String)
  | reserveKey (k : String × String × String)
  | consumeKey (k : String × String × String)
  | grantKey (k : String × String × String × String)
  deriving DecidableEq, Repr

def touches : Write → List Resource
  | .touchCounter ck | .addReserved ck _ | .settleCounter ck _ _ | .addUsed ck _
  | .freeUsed ck _ => [.counter ck]
  | .unreserve rows => rows.map fun row => .counter row.1
  | .insertReservation r => [.reservation r.id, .reserveKey r.idemKey]
  | .settleReservation id _ _ | .releaseReservation id _ _ => [.reservation id]
  | .expireReservations ids => ids.map .reservation
  | .insertConsumeIdem c => [.consumeKey c.key]
  | .insertGrants gs => gs.map fun g => .grantKey g.key

/-- The two databases agree on the row, or on whether the key is taken. -/
def same : Resource → Db → Db → Prop
  | .counter ck, db, db' => db.counters ck = db'.counters ck
  | .reservation id, db, db' => db.reservation id = db'.reservation id
  | .reserveKey k, db, db' =>
      k ∈ db.reservations.map Reservation.idemKey ↔ k ∈ db'.reservations.map Reservation.idemKey
  | .consumeKey k, db, db' =>
      k ∈ db.consumeIdems.map ConsumeIdem.key ↔ k ∈ db'.consumeIdems.map ConsumeIdem.key
  | .grantKey k, db, db' => k ∈ db.grants.map Grant.key ↔ k ∈ db'.grants.map Grant.key

theorem same_refl (r : Resource) (db : Db) : same r db db := by
  cases r <;> simp only [same]

theorem same_trans (r : Resource) (a b c : Db) (h : same r a b) (h' : same r b c) : same r a c := by
  cases r <;> simp only [same] at h h' ⊢
  case counter => exact h.trans h'
  case reservation => exact h.trans h'
  all_goals exact h.trans h'

section rows

variable (r : Reservation) (actual amount : Int) (idem : String)

@[simp] theorem settle_id : (r.settle actual idem).id = r.id := by
  unfold Reservation.settle; split <;> rfl
@[simp] theorem settle_idemKey : (r.settle actual idem).idemKey = r.idemKey := by
  unfold Reservation.settle; split <;> rfl
@[simp] theorem settle_counter : (r.settle actual idem).counter = r.counter := by
  unfold Reservation.settle; split <;> rfl
@[simp] theorem release_id : (r.release amount idem).id = r.id := by
  unfold Reservation.release; split <;> rfl
@[simp] theorem release_idemKey : (r.release amount idem).idemKey = r.idemKey := by
  unfold Reservation.release; split <;> rfl
@[simp] theorem release_counter : (r.release amount idem).counter = r.counter := by
  unfold Reservation.release; split <;> rfl
@[simp] theorem expire_id : r.expire.id = r.id := rfl
@[simp] theorem expire_idemKey : r.expire.idemKey = r.idemKey := rfl

end rows

/-! ## What a write leaves alone -/

section writes

variable (db : Db) (ck : CounterKey) (insert : Counter) (update : Counter → Counter)
  (f : CounterKey → Counter → Counter) (ids : List String) (g : Reservation → Reservation)

@[simp] theorem upsertCounter_reservations :
    (db.upsertCounter ck insert update).reservations = db.reservations := rfl
@[simp] theorem upsertCounter_consumeIdems :
    (db.upsertCounter ck insert update).consumeIdems = db.consumeIdems := rfl
@[simp] theorem upsertCounter_grants : (db.upsertCounter ck insert update).grants = db.grants := rfl
@[simp] theorem updateCounters_reservations :
    (db.updateCounters f).reservations = db.reservations := rfl
@[simp] theorem updateCounters_consumeIdems :
    (db.updateCounters f).consumeIdems = db.consumeIdems := rfl
@[simp] theorem updateCounters_grants : (db.updateCounters f).grants = db.grants := rfl
@[simp] theorem updateReservations_counters :
    (db.updateReservations ids g).counters = db.counters := rfl
@[simp] theorem updateReservations_consumeIdems :
    (db.updateReservations ids g).consumeIdems = db.consumeIdems := rfl
@[simp] theorem updateReservations_grants : (db.updateReservations ids g).grants = db.grants := rfl

@[simp] theorem upsertCounter_self : (db.upsertCounter ck insert update).counters ck
    = some ((db.counters ck).elim insert update) := by
  simp [Db.upsertCounter]

theorem upsertCounter_ne {ck' : CounterKey} (h : ck' ≠ ck) :
    (db.upsertCounter ck insert update).counters ck' = db.counters ck' := by
  simp [Db.upsertCounter, h]

@[simp] theorem updateCounters_counters :
    (db.updateCounters f).counters ck = (db.counters ck).map (f ck) := rfl

variable {g} in
theorem updateReservations_map {β : Type} {col : Reservation → β} (h : ∀ r, col (g r) = col r) :
    (db.updateReservations ids g).reservations.map col = db.reservations.map col :=
  Table.map_modify h

variable {g} in
theorem updateReservations_of_notMem {id : String} (h : ∀ r, (g r).id = r.id) (hid : id ∉ ids) :
    (db.updateReservations ids g).reservation id = db.reservation id :=
  Table.get_modify_of_notMem h hid

end writes

/-- A write changes nothing but what it touches. -/
theorem same_apply (r : Resource) (w : Write) (db : Db) (h : r ∉ touches w) :
    same r db (apply db w) := by
  cases r with
  | counter ck =>
    cases w <;> simp only [touches, List.mem_singleton, Resource.counter.injEq] at h <;>
      simp only [same, apply, updateReservations_counters, updateCounters_counters]
    case touchCounter => exact (upsertCounter_ne _ _ _ _ h).symm
    case settleCounter => exact (upsertCounter_ne _ _ _ _ h).symm
    case addUsed => exact (upsertCounter_ne _ _ _ _ h).symm
    case addReserved => simp [h]
    case freeUsed => simp [h]
    case unreserve rows =>
      have hck : ck ∉ rows.map Prod.fst := by
        intro hmem
        obtain ⟨row, hrow, rfl⟩ := List.mem_map.1 hmem
        exact h (List.mem_map.2 ⟨row, hrow, rfl⟩)
      simp only [hck, if_false]
      exact Option.map_id'.symm
  | reservation id =>
    cases w <;> simp only [touches, List.mem_cons, List.not_mem_nil, or_false,
      Resource.reservation.injEq, List.mem_map, not_exists, not_and, reduceCtorEq] at h <;>
      simp only [same, apply]
    case insertReservation r =>
      simp [Db.reservation, Table.get_append, Ne.symm h]
    case settleReservation id' actual idem =>
      exact (updateReservations_of_notMem db [id'] (settle_id · actual idem) (by simpa using h)).symm
    case releaseReservation id' amount idem =>
      exact (updateReservations_of_notMem db [id'] (release_id · amount idem) (by simpa using h)).symm
    case expireReservations ids =>
      exact (updateReservations_of_notMem db ids expire_id fun hid => h id hid rfl).symm
    all_goals rfl
  | reserveKey k =>
    cases w <;> simp only [touches, List.mem_cons, List.not_mem_nil, or_false,
      Resource.reserveKey.injEq, reduceCtorEq, false_or] at h <;>
      simp only [same, apply]
    case insertReservation r => simp [h]
    case settleReservation id actual idem =>
      rw [updateReservations_map db [id] (settle_idemKey · actual idem)]
    case releaseReservation id amount idem =>
      rw [updateReservations_map db [id] (release_idemKey · amount idem)]
    case expireReservations ids => rw [updateReservations_map db ids expire_idemKey]
    all_goals rfl
  | consumeKey k =>
    cases w <;> simp only [touches, List.mem_singleton, Resource.consumeKey.injEq] at h <;>
      simp only [same, apply]
    case insertConsumeIdem c => simp [h]
    all_goals rfl
  | grantKey k =>
    cases w <;> simp only [touches, List.mem_map, not_exists, not_and, Resource.grantKey.injEq] at h <;>
      simp only [same, apply]
    case insertGrants gs =>
      have hk : k ∉ gs.map Grant.key := by
        intro hmem
        obtain ⟨g, hg, rfl⟩ := List.mem_map.1 hmem
        exact h g hg rfl
      simp [hk]
    all_goals rfl

end Ploykit.Quota

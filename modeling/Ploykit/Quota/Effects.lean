import Ploykit.Lib.RelyGuarantee
import Ploykit.Quota.Service

/-!
# Effects

A quota transaction that commits has one of a few `Effect`s on the tables, all
of its writes at once. `Enabled` says when an effect can happen, and `Inv` is
what every effect keeps: the constraints of the schema and the balance between
`quota_counter.reserved` and the live reservations.

The amounts that decide admission may have been read a little earlier than the
commit, so `Enabled` speaks of earlier databases from which the present one has
evolved (`Evolves`). Statements that clamp with GREATEST(0, ..) are asserted to
have enough to take from.
-/

namespace Ploykit.Quota

open Lib

/-! ## The invariant -/

/-- The row checks of `quota_reservation`, and what the code adds to them. -/
structure Reservation.Ok (r : Reservation) : Prop where
  pos : 0 < r.amount
  big : Bigint r.amount
  released_nonneg : 0 ≤ r.releasedAmount
  released_le : r.releasedAmount ≤ r.amount
  live : r.status = .reserved → r.releasedAmount < r.amount

/-- The sum of `amount - released_amount` over the live reservations of the counter. -/
def Db.held (db : Db) (ck : CounterKey) : Int :=
  ((db.reservations.filter fun r => r.counter = ck ∧ r.status = .reserved).map
    fun r => r.amount - r.releasedAmount).sum

structure Inv (db : Db) : Prop where
  ids : (db.reservations.map Reservation.id).Nodup
  reserveKeys : (db.reservations.map Reservation.idemKey).Nodup
  consumeKeys : (db.consumeIdems.map ConsumeIdem.key).Nodup
  grantKeys : (db.grants.map Grant.key).Nodup
  rows : ∀ r ∈ db.reservations, r.Ok
  grants : ∀ g ∈ db.grants, 0 < g.amount
  used : ∀ ck, 0 ≤ (db.counter ck).used
  balance : ∀ ck, (db.counter ck).reserved = db.held ck

/-! ## Effects -/

inductive Effect where
  | reserve (r : Reservation)
  | settle (r : Reservation) (actual : Int) (idem : String)
  | release (r : Reservation) (amount : Int) (idem : String)
  | expire (now : Time) (rows : List Reservation)
  | consume (ck : CounterKey) (n : Int) (idem : Option String)
  | free (ck : CounterKey) (n : Int)
  | grant (gs : List Grant)
  deriving DecidableEq, Repr

/-- The key that a consumption claims. -/
def consumeRow (ck : CounterKey) (n : Int) (idem : String) : ConsumeIdem :=
  ⟨ck.workspaceID, ck.counterKey, idem, ck.period, n⟩

/-- What a live reservation takes from its counter when it ends. -/
def Reservation.share (r : Reservation) : CounterKey × Int := (r.counter, r.outstanding)

namespace Effect

/-- The writes of the transaction, in their order. -/
def writes : Effect → List Write
  | reserve r => [.touchCounter r.counter, .addReserved r.counter r.amount, .insertReservation r]
  | settle r actual idem =>
      [.settleCounter r.counter actual r.outstanding, .settleReservation r.id actual idem]
  | release r amount idem =>
      [.unreserve [(r.counter, amount)], .releaseReservation r.id amount idem]
  | expire _ rows =>
      [.expireReservations (rows.map Reservation.id), .unreserve (rows.map Reservation.share)]
  | consume ck n none => [.addUsed ck n]
  | consume ck n (some idem) => [.insertConsumeIdem (consumeRow ck n idem), .addUsed ck n]
  | free ck n => [.freeUsed ck n]
  | grant gs => [.insertGrants gs]

/-- The database after the effect. -/
def apply (e : Effect) (db : Db) : Db := store.applyAll db e.writes

end Effect

/-! ## Evolution -/

/-- What may become of a row: it keeps its identity, and stays as it is once it
is no longer live. -/
structure Reservation.Becomes (r r' : Reservation) : Prop where
  id : r'.id = r.id
  counter : r'.counter = r.counter
  idemKey : r'.idemKey = r.idemKey
  amount : r'.amount = r.amount
  releaseKeys : r.releaseIdempotencyKeys <+: r'.releaseIdempotencyKeys
  ended : r.status ≠ .reserved → r' = r

/-- The plans that the environment may install, the settlements and the effects
that the runs considered may make, and what they keep. -/
structure Policy where
  J : Db → Prop
  planEnv : (String → Option Plan) → (String → Option Plan) → Prop
  settles : CounterKey → Int → Int → Prop
  commits : Effect → Prop

/-- What any number of effects and plan changes can do to the tables. -/
structure Evolves (π : Policy) (db db' : Db) : Prop where
  plans : π.planEnv db.plans db'.plans
  grants : db.grants <+: db'.grants
  consumeIdems : db.consumeIdems <+: db'.consumeIdems
  reservations : ∀ r ∈ db.reservations, ∃ r' ∈ db'.reservations, r.Becomes r'

/-! ## When an effect can happen -/

/-- The plan of a workspace as `planLimitsFor` returns it. -/
def Db.planOf (db : Db) (workspaceID : String) : Plan := (db.plans workspaceID).getD noPlan

/-- The limit of a counter. -/
def Db.limit (db : Db) (ck : CounterKey) : Int := (db.planOf ck.workspaceID).limit ck.counterKey

/-- A reservation as `Reserve` inserts it. -/
structure Reservation.Fresh (r : Reservation) : Prop where
  pos : 0 < r.amount
  big : Bigint r.amount
  released : r.releasedAmount = 0
  status : r.status = .reserved
  releaseKeys : r.releaseIdempotencyKeys = []

/-- `Reserve` admitted the amount: by the limit of `db₁`, the grants of `db₂`, and
the counter as it is. -/
structure ReserveAdmits (π : Policy) (db : Db) (ck : CounterKey) (amount : Int) (db₁ db₂ : Db) :
    Prop where
  plan : Evolves π db₁ db
  grants : Evolves π db₂ db
  inv : π.J db₂
  counter : db₂.counters ck = db.counters ck
  avail : amount ≤
    wrap64 (db₁.limit ck + db₂.granted ck - (db.counter ck).used - (db.counter ck).reserved)

/-- `Consume` admitted the amount: the plan of `db₁` is soft, or the amount fits
within its limit, the grants of `db₂`, and the counter as it is. -/
structure ConsumeAdmits (π : Policy) (db : Db) (ck : CounterKey) (n : Int) (db₁ db₂ : Db) :
    Prop where
  plan : Evolves π db₁ db
  grants : Evolves π db₂ db
  avail : (db₁.planOf ck.workspaceID).mode = .soft ∨
    n ≤ db₁.limit ck + db₂.granted ck ∧ ∀ c, db.counters ck = some c →
      c.used + n + c.reserved ≤ db₁.limit ck + db₂.granted ck

def Enabled (π : Policy) (db : Db) : Effect → Prop
  | .reserve r => r.Fresh ∧ r.idemKey ∉ db.reservations.map Reservation.idemKey ∧
      r.id ∉ db.reservations.map Reservation.id ∧
      ∃ db₁ db₂, ReserveAdmits π db r.counter r.amount db₁ db₂
  | .settle r actual _ => r ∈ db.reservations ∧ r.status = .reserved ∧ 0 ≤ actual ∧
      π.settles r.counter actual r.outstanding
  | .release r amount idem => r ∈ db.reservations ∧ r.status = .reserved ∧ 0 ≤ amount ∧
      amount ≤ r.outstanding ∧ idem ∉ r.releaseIdempotencyKeys
  | .expire now rows => rows.Nodup ∧
      ∀ r ∈ rows, r ∈ db.reservations ∧ r.status = .reserved ∧ r.expiresAt ≤ now
  | .consume ck n idem => 0 < n ∧
      (∀ k, idem = some k → (consumeRow ck n k).key ∉ db.consumeIdems.map ConsumeIdem.key) ∧
      ∃ db₁ db₂, ConsumeAdmits π db ck n db₁ db₂
  | .free _ _ => True
  | .grant gs => (∀ g ∈ gs, 0 < g.amount ∧ g.key ∉ db.grants.map Grant.key) ∧
      (gs.map Grant.key).Nodup

/-! ## Shares of a counter -/

variable {r : Reservation}

theorem Reservation.Ok.outstanding (h : r.Ok) :
    r.outstanding = r.amount - r.releasedAmount := by
  have hb := h.big
  have h0 := h.released_nonneg
  have h1 := h.released_le
  refine wrap64_of_bigint ?_
  unfold Bigint at hb ⊢
  omega

/-- What the row holds of the counter. -/
def Reservation.heldFor (ck : CounterKey) (r : Reservation) : Int :=
  if r.counter = ck ∧ r.status = .reserved then r.amount - r.releasedAmount else 0

theorem held_eq_sum (db : Db) (ck : CounterKey) :
    db.held ck = (db.reservations.map (Reservation.heldFor ck)).sum :=
  Table.sum_filter fun r : Reservation => r.counter = ck ∧ r.status = .reserved

theorem heldFor_nonneg (h : r.Ok) (ck : CounterKey) : 0 ≤ r.heldFor ck := by
  unfold Reservation.heldFor
  have := h.released_le
  split <;> omega

variable {rows : List Reservation}

theorem heldFor_eq_amountAt (ck : CounterKey)
    (h : ∀ r ∈ rows, r.Ok ∧ r.status = .reserved) :
    amountAt (rows.map Reservation.share) ck = (rows.map (Reservation.heldFor ck)).sum := by
  induction rows with
  | nil => rfl
  | cons r rs ih =>
    obtain ⟨hok, hlive⟩ := h r List.mem_cons_self
    have htail := ih fun r' hr' => h r' (List.mem_cons_of_mem _ hr')
    by_cases hck : r.counter = ck
    · simp_all [amountAt, Reservation.share, Reservation.heldFor, hok.outstanding]
    · simp_all [amountAt, Reservation.share, Reservation.heldFor]

/-- Live rows hold at most what all rows hold together. -/
theorem Inv.sum_le_held {db : Db} (h : Inv db) (hnodup : rows.Nodup)
    (hrows : ∀ r ∈ rows, r ∈ db.reservations) (ck : CounterKey) :
    (rows.map (Reservation.heldFor ck)).sum ≤ db.held ck := by
  rw [held_eq_sum]
  exact Table.sum_le_sum_of_subset hnodup hrows fun r hr => heldFor_nonneg (h.rows r hr) ck

/-- The counter of live rows covers them, so that it has a row. -/
theorem Inv.sum_le_reserved {db : Db} (h : Inv db)
    (hnodup : rows.Nodup) (hrows : ∀ r ∈ rows, r ∈ db.reservations) (ck : CounterKey) :
    (rows.map (Reservation.heldFor ck)).sum ≤ (db.counter ck).reserved :=
  h.balance ck ▸ h.sum_le_held hnodup hrows ck

theorem Inv.outstanding_le {db : Db} (h : Inv db) (hr : r ∈ db.reservations)
    (hlive : r.status = .reserved) : r.outstanding ≤ (db.counter r.counter).reserved := by
  have hsum := h.sum_le_reserved (List.nodup_singleton r) (by simpa using hr) r.counter
  simpa [Reservation.heldFor, hlive, (h.rows r hr).outstanding] using hsum

theorem Inv.counter_isSome {db : Db} (h : Inv db) (hr : r ∈ db.reservations)
    (hlive : r.status = .reserved) : ∃ c, db.counters r.counter = some c := by
  have hle := h.outstanding_le hr hlive
  have hok := h.rows r hr
  have hpos := hok.live hlive
  rw [hok.outstanding] at hle
  cases hc : db.counters r.counter with
  | none =>
    simp only [Db.counter, hc, Option.getD_none] at hle
    omega
  | some c => exact ⟨c, rfl⟩

/-! ## Effects keep the invariant -/

section keeps

variable {π : Policy} {db : Db}

/-- An effect on the counters and on the rows of some live reservations. -/
theorem Inv.modify {db db' : Db} (h : Inv db) (rows : List Reservation)
    (f : Reservation → Reservation) (hnodup : rows.Nodup) (hrows : ∀ r ∈ rows, r ∈ db.reservations)
    (hid : ∀ r, (f r).id = r.id) (hkey : ∀ r, (f r).idemKey = r.idemKey)
    (hok : ∀ r ∈ rows, (f r).Ok)
    (hres : db'.reservations = Table.modify Reservation.id (rows.map Reservation.id) f db.reservations)
    (hidem : db'.consumeIdems = db.consumeIdems) (hgrants : db'.grants = db.grants)
    (hused : ∀ ck, 0 ≤ (db'.counter ck).used)
    (hbalance : ∀ ck, (db'.counter ck).reserved = (db.counter ck).reserved
      + (rows.map fun r => (f r).heldFor ck - r.heldFor ck).sum) : Inv db' where
  ids := by rw [hres, Table.map_modify hid]; exact h.ids
  reserveKeys := by rw [hres, Table.map_modify hkey]; exact h.reserveKeys
  consumeKeys := hidem ▸ h.consumeKeys
  grantKeys := hgrants ▸ h.grantKeys
  rows := by
    intro r' hr'
    rw [hres] at hr'
    obtain ⟨r, hr, rfl⟩ := Table.mem_modify.1 hr'
    split
    · rename_i hmem
      obtain ⟨r₀, hr₀, hid₀⟩ := List.mem_map.1 hmem
      have heq : r₀ = r := List.inj_on_of_nodup_map h.ids (hrows r₀ hr₀) hr hid₀
      exact hok r (heq ▸ hr₀)
    · exact h.rows r hr
  grants := hgrants ▸ h.grants
  used := hused
  balance := by
    intro ck
    rw [held_eq_sum, hres, Table.sum_modify h.ids hnodup hrows, ← held_eq_sum, ← h.balance ck]
    exact hbalance ck

/-- An effect that leaves the reservations alone. -/
theorem Inv.frame {db db' : Db} (h : Inv db) (hres : db'.reservations = db.reservations)
    (hconsume : (db'.consumeIdems.map ConsumeIdem.key).Nodup)
    (hkeys : (db'.grants.map Grant.key).Nodup) (hgrants : ∀ g ∈ db'.grants, 0 < g.amount)
    (hused : ∀ ck, 0 ≤ (db'.counter ck).used)
    (hbalance : ∀ ck, (db'.counter ck).reserved = (db.counter ck).reserved) : Inv db' where
  ids := hres ▸ h.ids
  reserveKeys := hres ▸ h.reserveKeys
  consumeKeys := hconsume
  grantKeys := hkeys
  rows := hres ▸ h.rows
  grants := hgrants
  used := hused
  balance := fun ck => by
    rw [hbalance, h.balance, held_eq_sum, held_eq_sum, hres]

/-! ## Counters after an effect -/

variable (db) in
theorem counter_reserve (r : Reservation) (ck : CounterKey) :
    ((Effect.reserve r).apply db).counter ck = { db.counter ck with
      reserved := (db.counter ck).reserved + if r.counter = ck then r.amount else 0 } := by
  by_cases hck : r.counter = ck
  · subst hck
    cases hc : db.counters r.counter <;>
      simp [Effect.apply, Effect.writes, store, apply, Db.counter, Db.upsertCounter,
        Db.updateCounters, hc]
  · have hne : ck ≠ r.counter := fun h => hck h.symm
    cases hc : db.counters ck <;>
      simp [Effect.apply, Effect.writes, store, apply, Db.counter, Db.upsertCounter,
        Db.updateCounters, hc, hck, hne]

variable (db) in
theorem counter_settle (r : Reservation) (actual : Int) (idem : String) (ck : CounterKey)
    {c : Counter} (hc : db.counters r.counter = some c) :
    ((Effect.settle r actual idem).apply db).counter ck =
      if r.counter = ck then ⟨c.used + actual, greatest0 (c.reserved - r.outstanding)⟩
      else db.counter ck := by
  by_cases hck : r.counter = ck
  · subst hck
    simp [Effect.apply, Effect.writes, store, apply, Db.counter, Db.upsertCounter,
      Db.updateReservations, hc]
  · have hne : ck ≠ r.counter := fun h => hck h.symm
    simp [Effect.apply, Effect.writes, store, apply, Db.counter, Db.upsertCounter,
      Db.updateReservations, hck, hne]

theorem amountAt_of_notMem {rows : List (CounterKey × Int)} {ck : CounterKey}
    (h : ck ∉ rows.map Prod.fst) : amountAt rows ck = 0 := by
  have hnone : (rows.filter fun row => row.1 = ck) = [] := by
    refine List.filter_eq_nil_iff.2 fun row hrow => ?_
    simpa using fun hck : row.1 = ck => h (hck ▸ List.mem_map_of_mem hrow)
  simp [amountAt, hnone]

/-- Taking off no more than there is never clamps. -/
theorem counter_unreserve (db : Db) (rows : List (CounterKey × Int)) (ck : CounterKey)
    (h : ck ∈ rows.map Prod.fst → 0 ≤ amountAt rows ck ∧
      amountAt rows ck ≤ (db.counter ck).reserved) :
    (apply db (.unreserve rows)).counter ck =
      { db.counter ck with reserved := (db.counter ck).reserved - amountAt rows ck } := by
  by_cases hmem : ck ∈ rows.map Prod.fst
  · obtain ⟨hnonneg, hle⟩ := h hmem
    cases hc : db.counters ck with
    | none =>
      simp only [Db.counter, hc, Option.getD_none] at hle
      have hzero : amountAt rows ck = 0 := by omega
      simp [apply, Db.counter, hc, hzero]
    | some c =>
      simp only [Db.counter, hc, Option.getD_some] at hle
      simp only [apply, Db.counter, updateCounters_counters, hc, Option.map_some, hmem, if_true,
        Option.getD_some, Counter.mk.injEq, true_and, greatest0]
      omega
  · cases hc : db.counters ck <;> simp [apply, Db.counter, hc, hmem, amountAt_of_notMem hmem]

variable (db) in
theorem counter_release (r : Reservation) (amount : Int) (idem : String) (ck : CounterKey)
    (hnonneg : 0 ≤ amount) (hle : amount ≤ (db.counter r.counter).reserved) :
    ((Effect.release r amount idem).apply db).counter ck = { db.counter ck with
      reserved := (db.counter ck).reserved - if r.counter = ck then amount else 0 } := by
  have hat : amountAt [(r.counter, amount)] ck = if r.counter = ck then amount else 0 := by
    by_cases hck : r.counter = ck <;> simp [amountAt, hck]
  rw [← hat]
  refine counter_unreserve db [(r.counter, amount)] ck fun hmem => ?_
  have hck : ck = r.counter := by simpa using hmem
  subst hck
  simpa [hat] using ⟨hnonneg, hle⟩

variable (db) in
theorem counter_expire (now : Time) (rows : List Reservation) (ck : CounterKey)
    (hnonneg : 0 ≤ amountAt (rows.map Reservation.share) ck)
    (hle : amountAt (rows.map Reservation.share) ck ≤ (db.counter ck).reserved) :
    ((Effect.expire now rows).apply db).counter ck = { db.counter ck with
      reserved := (db.counter ck).reserved - amountAt (rows.map Reservation.share) ck } :=
  counter_unreserve (apply db (.expireReservations (rows.map Reservation.id)))
    (rows.map Reservation.share) ck fun _ => ⟨hnonneg, hle⟩

variable (db) in
theorem counter_consume (ck ck' : CounterKey) (n : Int) (idem : Option String) :
    ((Effect.consume ck n idem).apply db).counter ck' = { db.counter ck' with
      used := (db.counter ck').used + if ck = ck' then n else 0 } := by
  by_cases hck : ck = ck'
  · subst hck
    cases idem <;> cases hc : db.counters ck <;>
      simp [Effect.apply, Effect.writes, store, apply, Db.counter, Db.upsertCounter, hc]
  · have hne : ck' ≠ ck := fun h => hck h.symm
    cases idem <;>
      simp [Effect.apply, Effect.writes, store, apply, Db.counter, Db.upsertCounter, hck, hne]

variable (db) in
theorem counter_free (ck ck' : CounterKey) (n : Int) :
    ((Effect.free ck n).apply db).counter ck' =
      if ck' = ck ∧ (db.counters ck).isSome then
        { db.counter ck' with used := greatest0 ((db.counter ck').used - n) }
      else db.counter ck' := by
  by_cases hck : ck' = ck
  · subst hck
    cases hc : db.counters ck' <;>
      simp [Effect.apply, Effect.writes, store, apply, Db.counter, Db.updateCounters, hc]
  · cases hc : db.counters ck' <;>
      simp [Effect.apply, Effect.writes, store, apply, Db.counter, Db.updateCounters, hc, hck]

/-! ## The balance -/

/-- What a settlement changes in the shares of the counters. -/
theorem heldFor_settle (hlive : r.status = .reserved) (actual : Int)
    (idem : String) (ck : CounterKey) : (r.settle actual idem).heldFor ck = 0 := by
  simp [Reservation.heldFor, Reservation.settle, hlive]

theorem heldFor_expire (r : Reservation) (ck : CounterKey) : r.expire.heldFor ck = 0 := by
  simp [Reservation.heldFor, Reservation.expire]

theorem heldFor_release (hlive : r.status = .reserved) (hok : r.Ok) {amount : Int}
    (hle : amount ≤ r.outstanding) (idem : String) (ck : CounterKey) :
    (r.release amount idem).heldFor ck
      = r.heldFor ck - if r.counter = ck then amount else 0 := by
  rw [hok.outstanding] at hle
  by_cases hck : r.counter = ck
  · simp only [Reservation.heldFor, release_counter, hck, hlive, true_and, if_true]
    simp only [Reservation.release, hlive, if_true]
    split <;> simp_all <;> omega
  · simp [Reservation.heldFor, hck]

theorem release_ok (hlive : r.status = .reserved) (hok : r.Ok) {amount : Int}
    (hnonneg : 0 ≤ amount) (hle : amount ≤ r.outstanding) (idem : String) :
    (r.release amount idem).Ok := by
  rw [hok.outstanding] at hle
  have h0 := hok.released_nonneg
  have h1 := hok.released_le
  refine ⟨?_, ?_, ?_, ?_, ?_⟩ <;> simp only [Reservation.release, hlive, if_true]
  · exact hok.pos
  · exact hok.big
  · omega
  · omega
  · intro h
    by_contra hge
    simp [show r.amount ≤ r.releasedAmount + amount by omega] at h

theorem settle_ok (hlive : r.status = .reserved) (hok : r.Ok) (actual : Int)
    (idem : String) : (r.settle actual idem).Ok := by
  refine ⟨?_, ?_, ?_, ?_, ?_⟩ <;> simp only [Reservation.settle, hlive, if_true]
  · exact hok.pos
  · exact hok.big
  · exact hok.released_nonneg
  · exact hok.released_le
  · simp

theorem expire_ok (hok : r.Ok) : r.expire.Ok :=
  ⟨hok.pos, hok.big, hok.released_nonneg, hok.released_le, by simp [Reservation.expire]⟩

theorem Inv.reserve (h : Inv db) (he : Enabled π db (.reserve r)) :
    Inv ((Effect.reserve r).apply db) := by
  obtain ⟨hfresh, hkey, hid, -⟩ := he
  have hres : ((Effect.reserve r).apply db).reservations = db.reservations ++ [r] := rfl
  refine ⟨?_, ?_, h.consumeKeys, h.grantKeys, ?_, h.grants, ?_, ?_⟩
  · rw [hres, List.map_append]
    exact List.Nodup.append h.ids (List.nodup_singleton _) (by simpa using hid)
  · rw [hres, List.map_append]
    exact List.Nodup.append h.reserveKeys (List.nodup_singleton _) (by simpa using hkey)
  · rw [hres]
    intro r' hr'
    rcases List.mem_append.1 hr' with hr' | hr'
    · exact h.rows r' hr'
    · rw [List.mem_singleton.1 hr']
      have hpos := hfresh.pos
      have hrel := hfresh.released
      exact ⟨hpos, hfresh.big, by omega, by omega, fun _ => by omega⟩
  · intro ck
    rw [counter_reserve]
    exact h.used ck
  · intro ck
    rw [counter_reserve, held_eq_sum, hres, List.map_append, List.sum_append, ← held_eq_sum,
      ← h.balance ck]
    simp [Reservation.heldFor, hfresh.status, hfresh.released]

theorem Inv.settle (h : Inv db) {actual : Int} {idem : String}
    (he : Enabled π db (.settle r actual idem)) : Inv ((Effect.settle r actual idem).apply db) := by
  obtain ⟨hr, hlive, hactual, -⟩ := he
  have hok := h.rows r hr
  obtain ⟨c, hc⟩ := h.counter_isSome hr hlive
  have hle := h.outstanding_le hr hlive
  have hused := h.used r.counter
  have hcounter : db.counter r.counter = c := by simp [Db.counter, hc]
  rw [hcounter] at hle hused
  refine h.modify [r] (Reservation.settle actual idem) (List.nodup_singleton r)
    (by simpa using hr) (settle_id · actual idem) (settle_idemKey · actual idem)
    (by simpa using settle_ok hlive hok actual idem) rfl rfl rfl ?_ ?_
  · intro ck
    rw [counter_settle db r actual idem ck hc]
    split
    · simp only
      omega
    · exact h.used ck
  · intro ck
    rw [counter_settle db r actual idem ck hc]
    simp only [List.map_cons, List.map_nil, List.sum_cons, List.sum_nil,
      heldFor_settle hlive actual idem ck]
    by_cases hck : r.counter = ck
    · subst hck
      have hout := hok.outstanding
      simp only [if_true, hcounter, Reservation.heldFor, hlive, and_self, greatest0]
      omega
    · simp [hck, Reservation.heldFor]

theorem Inv.release (h : Inv db) {amount : Int} {idem : String}
    (he : Enabled π db (.release r amount idem)) : Inv ((Effect.release r amount idem).apply db) := by
  obtain ⟨hr, hlive, hnonneg, hle, -⟩ := he
  have hok := h.rows r hr
  have hres := h.outstanding_le hr hlive
  have hcounter := fun ck => counter_release db r amount idem ck hnonneg (hle.trans hres)
  refine h.modify [r] (Reservation.release amount idem) (List.nodup_singleton r)
    (by simpa using hr) (release_id · amount idem) (release_idemKey · amount idem)
    (by simpa using release_ok hlive hok hnonneg hle idem) rfl rfl rfl ?_ ?_
  · intro ck
    rw [hcounter]
    exact h.used ck
  · intro ck
    rw [hcounter]
    simp only [List.map_cons, List.map_nil, List.sum_cons, List.sum_nil,
      heldFor_release hlive hok hle idem ck]
    omega

/-- What an expiry sweep takes off the counters. -/
theorem Inv.counter_expire (h : Inv db) {now : Time}
    (he : Enabled π db (.expire now rows)) (ck : CounterKey) :
    ((Effect.expire now rows).apply db).counter ck = { db.counter ck with
      reserved := (db.counter ck).reserved - (rows.map (Reservation.heldFor ck)).sum } := by
  obtain ⟨hnodup, hrows⟩ := he
  have hmem : ∀ r ∈ rows, r ∈ db.reservations := fun r hr => (hrows r hr).1
  have hat : amountAt (rows.map Reservation.share) ck = (rows.map (Reservation.heldFor ck)).sum :=
    heldFor_eq_amountAt ck fun r hr => ⟨h.rows r (hmem r hr), (hrows r hr).2.1⟩
  rw [← hat]
  refine Quota.counter_expire db now rows ck ?_ ?_ <;> rw [hat]
  · exact List.sum_nonneg (by simpa using fun r hr => heldFor_nonneg (h.rows r (hmem r hr)) ck)
  · exact h.sum_le_reserved hnodup hmem ck

theorem Inv.expire (h : Inv db) {now : Time}
    (he : Enabled π db (.expire now rows)) : Inv ((Effect.expire now rows).apply db) := by
  have hcounter := h.counter_expire he
  obtain ⟨hnodup, hrows⟩ := he
  refine h.modify rows Reservation.expire hnodup (fun r hr => (hrows r hr).1) expire_id
    expire_idemKey (fun r hr => expire_ok (h.rows r (hrows r hr).1)) rfl rfl rfl ?_ ?_
  · intro ck
    rw [hcounter]
    exact h.used ck
  · intro ck
    rw [hcounter]
    have hneg : (rows.map fun r => r.expire.heldFor ck - r.heldFor ck).sum
        = -(rows.map (Reservation.heldFor ck)).sum := by
      simp only [heldFor_expire, zero_sub, List.sum_neg, List.map_map]
      rfl
    rw [hneg, sub_eq_add_neg]

theorem Inv.consume (h : Inv db) {ck : CounterKey} {n : Int} {idem : Option String}
    (he : Enabled π db (.consume ck n idem)) : Inv ((Effect.consume ck n idem).apply db) := by
  obtain ⟨hn, hkey, -⟩ := he
  refine h.frame ?_ ?_ ?_ ?_ ?_ ?_
  · cases idem <;> rfl
  · cases idem with
    | none => exact h.consumeKeys
    | some k =>
      rw [show ((Effect.consume ck n (some k)).apply db).consumeIdems
        = db.consumeIdems ++ [consumeRow ck n k] from rfl, List.map_append]
      exact List.Nodup.append h.consumeKeys (List.nodup_singleton _) (by simpa using hkey k rfl)
  · cases idem <;> exact h.grantKeys
  · cases idem <;> exact h.grants
  · intro ck'
    have hused := h.used ck'
    rw [counter_consume]
    simp only
    split <;> omega
  · intro ck'
    rw [counter_consume]

theorem Inv.free (h : Inv db) (ck : CounterKey) (n : Int) :
    Inv ((Effect.free ck n).apply db) := by
  refine h.frame rfl h.consumeKeys h.grantKeys h.grants ?_ ?_ <;> intro ck' <;>
    rw [counter_free] <;> split
  · simp only [greatest0]
    omega
  · exact h.used ck'
  · rfl
  · rfl

theorem Inv.grant (h : Inv db) {gs : List Grant} (he : Enabled π db (.grant gs)) :
    Inv ((Effect.grant gs).apply db) := by
  obtain ⟨hgs, hnodup⟩ := he
  have hgrants : ((Effect.grant gs).apply db).grants = db.grants ++ gs := rfl
  refine h.frame rfl h.consumeKeys ?_ ?_ h.used fun _ => rfl
  · rw [hgrants, List.map_append]
    refine List.Nodup.append h.grantKeys hnodup fun k hk hk' => ?_
    obtain ⟨g, hg, rfl⟩ := List.mem_map.1 hk'
    exact (hgs g hg).2 hk
  · rw [hgrants]
    intro g hg
    rcases List.mem_append.1 hg with hg | hg
    · exact h.grants g hg
    · exact (hgs g hg).1

/-- Every effect that can happen keeps the invariant. -/
theorem Inv.effect (h : Inv db) {e : Effect} (he : Enabled π db e) : Inv (e.apply db) := by
  cases e with
  | reserve r => exact h.reserve he
  | settle r actual idem => exact h.settle he
  | release r amount idem => exact h.release he
  | expire now rows => exact h.expire he
  | consume ck n idem => exact h.consume he
  | free ck n => exact h.free ck n
  | grant gs => exact h.grant he

end keeps

/-! ## Evolution is a preorder that contains the effects -/

theorem Reservation.Becomes.refl (r : Reservation) : r.Becomes r :=
  ⟨rfl, rfl, rfl, rfl, List.prefix_rfl, fun _ => rfl⟩

theorem Reservation.Becomes.trans {a b c : Reservation} (h : a.Becomes b) (h' : b.Becomes c) :
    a.Becomes c where
  id := h'.id.trans h.id
  counter := h'.counter.trans h.counter
  idemKey := h'.idemKey.trans h.idemKey
  amount := h'.amount.trans h.amount
  releaseKeys := h.releaseKeys.trans h'.releaseKeys
  ended := fun ha => by
    have hb := h.ended ha
    subst hb
    exact h'.ended ha

theorem becomes_settle (r : Reservation) (actual : Int) (idem : String) :
    r.Becomes (r.settle actual idem) := by
  refine ⟨settle_id .., settle_counter .., settle_idemKey .., ?_, ?_, ?_⟩ <;>
    unfold Reservation.settle <;> split <;> simp_all

theorem becomes_release (r : Reservation) (amount : Int) (idem : String) :
    r.Becomes (r.release amount idem) := by
  refine ⟨release_id .., release_counter .., release_idemKey .., ?_, ?_, ?_⟩ <;>
    unfold Reservation.release <;> split <;> simp_all

theorem becomes_expire {r : Reservation} (h : r.status = .reserved) : r.Becomes r.expire :=
  ⟨rfl, rfl, rfl, rfl, List.prefix_rfl, fun hne => absurd h hne⟩

/-- The conditions on a policy. -/
structure Policy.Lawful (π : Policy) : Prop where
  inv : ∀ {db}, π.J db → Inv db
  plan_refl : ∀ ps, π.planEnv ps ps
  plan_trans : ∀ {a b c}, π.planEnv a b → π.planEnv b c → π.planEnv a c
  effect : ∀ {db e}, π.J db → π.commits e → Enabled π db e → π.J (e.apply db)
  plans : ∀ {db : Db} {ps}, π.J db → π.planEnv db.plans ps → π.J { db with plans := ps }

section evolves

variable {π : Policy} {db db' : Db}

theorem Evolves.refl (L : π.Lawful) (db : Db) : Evolves π db db :=
  ⟨L.plan_refl _, List.prefix_rfl, List.prefix_rfl, fun r hr => ⟨r, hr, .refl r⟩⟩

theorem Evolves.trans (L : π.Lawful) {a b c : Db} (h : Evolves π a b) (h' : Evolves π b c) :
    Evolves π a c where
  plans := L.plan_trans h.plans h'.plans
  grants := h.grants.trans h'.grants
  consumeIdems := h.consumeIdems.trans h'.consumeIdems
  reservations := by
    intro r hr
    obtain ⟨r', hr', hb⟩ := h.reservations r hr
    obtain ⟨r'', hr'', hb'⟩ := h'.reservations r' hr'
    exact ⟨r'', hr'', hb.trans hb'⟩

theorem modify_becomes {l : List Reservation} {ids : List String} {f : Reservation → Reservation}
    (h : ∀ r ∈ l, r.id ∈ ids → r.Becomes (f r)) :
    ∀ r ∈ l, ∃ r' ∈ Table.modify Reservation.id ids f l, r.Becomes r' := by
  intro r hr
  refine ⟨_, Table.mem_modify.2 ⟨r, hr, rfl⟩, ?_⟩
  split
  · exact h r hr ‹_›
  · exact .refl r

theorem evolves_effect (L : π.Lawful) (h : Inv db) {e : Effect} (he : Enabled π db e) :
    Evolves π db (e.apply db) := by
  cases e with
  | reserve r =>
    refine ⟨L.plan_refl _, List.prefix_rfl, List.prefix_rfl, fun r' hr' => ⟨r', ?_, .refl r'⟩⟩
    exact List.mem_append_left [r] hr'
  | settle r actual idem =>
    exact ⟨L.plan_refl _, List.prefix_rfl, List.prefix_rfl,
      modify_becomes fun r' _ _ => becomes_settle r' actual idem⟩
  | release r amount idem =>
    exact ⟨L.plan_refl _, List.prefix_rfl, List.prefix_rfl,
      modify_becomes fun r' _ _ => becomes_release r' amount idem⟩
  | expire now rows =>
    refine ⟨L.plan_refl _, List.prefix_rfl, List.prefix_rfl, modify_becomes fun r hr hid => ?_⟩
    obtain ⟨r', hr', hid'⟩ := List.mem_map.1 hid
    obtain ⟨hmem, hlive, -⟩ := he.2 r' hr'
    exact becomes_expire (List.inj_on_of_nodup_map h.ids hmem hr hid' ▸ hlive)
  | consume ck n idem =>
    cases idem with
    | none => exact ⟨L.plan_refl _, List.prefix_rfl, List.prefix_rfl, fun r hr => ⟨r, hr, .refl r⟩⟩
    | some k =>
      exact ⟨L.plan_refl _, List.prefix_rfl, List.prefix_append _ [consumeRow ck n k],
        fun r hr => ⟨r, hr, .refl r⟩⟩
  | free ck n =>
    exact ⟨L.plan_refl _, List.prefix_rfl, List.prefix_rfl, fun r hr => ⟨r, hr, .refl r⟩⟩
  | grant gs =>
    exact ⟨L.plan_refl _, List.prefix_append _ gs, List.prefix_rfl, fun r hr => ⟨r, hr, .refl r⟩⟩

end evolves

/-! ## The protocol -/

/-- The clamping statements take no more than there is. -/
def NoClamp (db : Db) : {β : Type} → Stmt β → Prop
  | _, .settleCounter ck _ outstanding => outstanding ≤ (db.counter ck).reserved
  | _, .unreserve ck amount => amount ≤ (db.counter ck).reserved
  | _, .unreserveAll rows => ∀ ck, amountAt rows ck ≤ (db.counter ck).reserved
  | _, _ => True

/-- The settlements that the policy lets happen. -/
def Policy.allowed (π : Policy) : {β : Type} → Stmt β → Prop
  | _, .settleCounter ck actual outstanding => π.settles ck actual outstanding
  | _, _ => True

/-- The quota sessions and the changes of plans under a policy. -/
def protocol (π : Policy) : Protocol store Effect where
  touches := touches
  same := same
  Inv := π.J
  Guar e db db' := π.commits e ∧ Enabled π db e ∧ db' = e.apply db
  Env db db' := ∃ ps, π.planEnv db.plans ps ∧ db' = { db with plans := ps }
  Evolves := Evolves π
  pre s db := NoClamp db s
  allowed := π.allowed

theorem same_plans (r : Resource) (db : Db) (ps : String → Option Plan) :
    same r db { db with plans := ps } := by
  cases r with
  | counter ck => exact Eq.refl (db.counters ck)
  | reservation id => exact Eq.refl (db.reservation id)
  | _ => exact Iff.rfl

theorem protocol_lawful {π : Policy} (L : π.Lawful) : (protocol π).Lawful where
  same_refl := same_refl
  same_trans := same_trans
  frame r w db h := same_apply r w db h
  covered s held db o h := eval_covered s held db o h
  evolves_refl db := .refl L db
  evolves_trans a b c h h' := .trans L h h'
  guar e db db' h he := by
    obtain ⟨hc, hen, rfl⟩ := he
    exact ⟨L.effect h hc hen, evolves_effect L (L.inv h) hen⟩
  env db db' h he := by
    obtain ⟨ps, hps, rfl⟩ := he
    exact ⟨L.plans h hps, ⟨hps, List.prefix_rfl, List.prefix_rfl,
      fun r hr => ⟨r, hr, .refl r⟩⟩, fun r => same_plans r db ps⟩

/-- A change of plans keeps the invariant. -/
theorem Inv.plans {db : Db} (h : Inv db) (ps : String → Option Plan) : Inv { db with plans := ps } :=
  ⟨h.ids, h.reserveKeys, h.consumeKeys, h.grantKeys, h.rows, h.grants, h.used, h.balance⟩

end Ploykit.Quota

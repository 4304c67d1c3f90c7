import Ploykit.Platform.Webx
import Ploykit.Quota.Statements

/-!
# Quota service

The operations of `quota.Service`, statement by statement. `Action.inTx` stands
for `Begin` followed by `defer tx.Rollback(ctx)`: a return before the commit
rolls the transaction back. The hooks only observe and are left out.

What an operation takes from clocks and from the id generator is an argument
(`Ambient`).
-/

namespace Ploykit.Quota

open Lib

abbrev Act := Action Stmt PgErr Webx.Error

/-- An error that the service answers with. -/
def refuse {α : Type} (e : Webx.Error) : Act α := throw (.app e)

/-! ## Results -/

def reservationTTL : Time := 24 * 60 * 60 * 1000000

structure ReserveOpts where
  failOpen : Bool := false
  ttl : Time := 0
  deriving DecidableEq, Repr

structure ReserveResult where
  reservationID : String := ""
  replay : Bool := false
  degraded : Bool := false
  deriving DecidableEq, Repr

structure SettleResult where
  actual : Int
  replay : Bool := false
  deriving DecidableEq, Repr

structure ReleaseResult where
  released : Int := 0
  remaining : Int
  replay : Bool := false
  deriving DecidableEq, Repr

structure ConsumeResult where
  replay : Bool := false
  deriving DecidableEq, Repr

structure GrantIssued where
  workspaceID : String
  key : String
  reason : String
  refID : String
  amount : Int
  period : String
  deriving DecidableEq, Repr

/-- The service's clock, the database's clock and a fresh UUID. -/
structure Ambient where
  now : Time
  dbNow : Time
  newID : String
  deriving DecidableEq, Repr

def errQuotaExhausted (key : String) (avail want : Int) : Webx.Error :=
  Webx.newError 429 "E_QUOTA_EXHAUSTED"
    ("quota exhausted for " ++ key ++ ": available " ++ toString avail ++ ", want " ++ toString want)

def errQuotaUnavailable : Webx.Error :=
  Webx.newError 503 "E_QUOTA_UNAVAILABLE" "quota store unavailable, reserve failed closed"

def exceeded (key : String) : Webx.Error := Webx.newQuotaExceeded ("quota exceeded for " ++ key)

/-! ## Plans and periods -/

/-- `now.UTC().Format("2006-01")` -/
def period (now : Time) : String :=
  let d := Calendar.date now
  (if d.year < 0 then "-" else "") ++ Calendar.padded 4 d.year.natAbs ++ "-"
    ++ Calendar.padded 2 d.month.natAbs

/-- A workspace without a plan row has no limits, in hard mode. -/
def noPlan : Plan := ⟨"free", [], .hard⟩

def planLimitsFor (workspaceID : String) : Act Plan := do
  match ← Action.query (.planLimitsFor workspaceID) with
  | none => return noPlan
  | some plan => return plan

/-- `limits[key]`, where a negative limit stands for no limit. -/
def Plan.limit (plan : Plan) (key : String) : Int :=
  let limit := (plan.limits.lookup key).getD 0
  if limit < 0 then 2 ^ 62 else limit

/-! ## Reservations -/

/-- The row that `reserveTx` inserts. -/
def newReservation (workspaceID key : String) (amount : Int) (idemKey : String)
    (opts : ReserveOpts) (amb : Ambient) : Reservation where
  id := amb.newID
  workspaceID := workspaceID
  quotaKey := key
  periodKey := period amb.now
  amount := amount
  settledAmount := 0
  releasedAmount := 0
  status := .reserved
  idempotencyKey := idemKey
  settleIdempotencyKey := none
  releaseIdempotencyKeys := []
  expiresAt := amb.dbNow + if opts.ttl ≤ 0 then reservationTTL else opts.ttl
  createdAt := amb.dbNow

def reserveTx (workspaceID key : String) (amount : Int) (idemKey : String) (opts : ReserveOpts)
    (amb : Ambient) : Act ReserveResult :=
  let ck : CounterKey := ⟨workspaceID, period amb.now, key⟩
  Action.inTx do
    let c ← Action.query (.lockCounter ck)
    match ← Action.query (.reservationIDByIdemKey workspaceID key idemKey) with
    | some id => return { reservationID := id, replay := true }
    | none =>
      let plan ← planLimitsFor workspaceID
      let limit := plan.limit key
      let grants ← Action.query (.sumGrants ck)
      let avail := wrap64 (limit + grants - c.used - c.reserved)
      if avail < amount then
        refuse (errQuotaExhausted key avail amount)
      else
        Action.query (.addReserved ck amount)
        let inserted ← Action.query
          (.insertReservation (newReservation workspaceID key amount idemKey opts amb))
        if inserted then
          Action.commit
          return { reservationID := amb.newID }
        else
          match ← Action.query (.reservationIDByIdemKey workspaceID key idemKey) with
          | some id => return { reservationID := id, replay := true }
          | none => throw (.store .noRows)

def reserveFailure (opts : ReserveOpts) (err : Failure PgErr Webx.Error) : Act ReserveResult :=
  match err with
  | .app _ => throw err
  | .store _ => if opts.failOpen then return { degraded := true } else refuse errQuotaUnavailable

def reserve (workspaceID key : String) (amount : Int) (idemKey : String) (opts : ReserveOpts)
    (amb : Ambient) : Act ReserveResult :=
  if amount ≤ 0 then refuse (Webx.newValidation "reserve amount must be > 0")
  else if idemKey = "" then refuse (Webx.newValidation "reserve idempotency key required")
  else do
    match ← Action.attempt (Action.query (.reservationIDByIdemKey workspaceID key idemKey)) with
    | .ok (some id) => return { reservationID := id, replay := true }
    | .error err => reserveFailure opts err
    | .ok none =>
      match ← Action.attempt (reserveTx workspaceID key amount idemKey opts amb) with
      | .error err => reserveFailure opts err
      | .ok res => return res

def settle (reservationID : String) (actual : Int) (idemKey : String) : Act SettleResult :=
  if actual < 0 then refuse (Webx.newValidation "settle actual must be >= 0")
  else if idemKey = "" then refuse (Webx.newValidation "settle idempotency key required")
  else Action.inTx do
    match ← Action.query (.lockReservation reservationID) with
    | none => refuse (Webx.newNotFound "reservation not found")
    | some r =>
      match r.status with
      | .settled =>
        if r.settleIdempotencyKey = some idemKey then
          return { actual := r.settledAmount, replay := true }
        else refuse (Webx.newConflict "reservation already settled")
      | .released => refuse (Webx.newConflict "reservation already released")
      | .expired => refuse (Webx.newConflict "reservation expired, no capacity left to settle")
      | .reserved =>
        Action.query (.settleCounter r.counter actual r.outstanding)
        Action.query (.settleReservation reservationID actual idemKey)
        Action.commit
        return { actual }

def ReservationStatus.text : ReservationStatus → String
  | .reserved => "reserved"
  | .settled => "settled"
  | .released => "released"
  | .expired => "expired"

/-- What a release takes off: everything for an amount of zero or less, and never
more than what is outstanding. -/
def releaseAmount (amount outstanding : Int) : Int :=
  let amt := if amount ≤ 0 then outstanding else amount
  if amt > outstanding then outstanding else amt

def releaseReservation (reservationID : String) (amount : Int) (idemKey : String) :
    Act ReleaseResult :=
  if idemKey = "" then refuse (Webx.newValidation "release idempotency key required")
  else Action.inTx do
    match ← Action.query (.lockReservation reservationID) with
    | none => refuse (Webx.newNotFound "reservation not found")
    | some r =>
      if idemKey ∈ r.releaseIdempotencyKeys then
        return { remaining := r.outstanding, replay := true }
      else if r.status ≠ .reserved then
        refuse (Webx.newConflict ("reservation already " ++ r.status.text))
      else
        let amt := releaseAmount amount r.outstanding
        Action.query (.unreserve r.counter amt)
        Action.query (.releaseReservation reservationID amt idemKey)
        Action.commit
        return { released := amt, remaining := r.outstanding - amt }

def expireDueReservations (now : Time) (limit : Int) : Act (List Reservation) :=
  let limit := if limit ≤ 0 then 100 else limit
  Action.inTx do
    let expired ← Action.query (.expireReservations now limit)
    if expired = [] then
      Action.commit
      return expired
    else
      Action.query (.unreserveAll (expired.map fun r => (r.counter, r.outstanding)))
      Action.commit
      return expired

/-! ## Consumption -/

def consumeOnce (ck : CounterKey) (n limit : Int) (soft : Bool) : Act Bool :=
  if soft then Action.query (.addUsed ck n)
  else do
    let grants ← Action.query (.sumGrants ck)
    Action.query (.addUsedWithin ck n limit grants)

def consumeIdem (ck : CounterKey) (n limit : Int) (soft : Bool) (idem : String) :
    Act ConsumeResult :=
  Action.inTx do
    let inserted ← Action.query (.insertConsumeIdem
      ⟨ck.workspaceID, ck.counterKey, idem, ck.period, n⟩)
    if inserted then
      let applied ← consumeOnce ck n limit soft
      if applied then
        Action.commit
        return {}
      else
        Action.rollback
        refuse (exceeded ck.counterKey)
    else return { replay := true }

def consumeWith (workspaceID key : String) (n : Int) (now : Time) (idemKey : String) :
    Act ConsumeResult :=
  if n ≤ 0 then refuse (Webx.newValidation "consume amount must be > 0")
  else do
    let plan ← planLimitsFor workspaceID
    let limit := plan.limit key
    let ck : CounterKey := ⟨workspaceID, period now, key⟩
    let soft : Bool := plan.mode = .soft
    let idem := Strings.trimSpace idemKey
    if idem = "" then
      let applied ← consumeOnce ck n limit soft
      if applied then return {}
      else refuse (exceeded key)
    else consumeIdem ck n limit soft idem

def consume (workspaceID key : String) (n : Int) (now : Time) : Act Unit := do
  let _ ← consumeWith workspaceID key n now ""

def release (workspaceID key : String) (n : Int) (now : Time) : Act Unit :=
  Action.query (.freeUsed ⟨workspaceID, period now, key⟩ n)

/-! ## Grants -/

def grantOnce (workspaceID key reason refID : String) (amount : Int) (now : Time) : Act Bool :=
  if Strings.trimSpace refID = "" then
    refuse (Webx.newValidation "refID required: Grant is idempotent on (workspace,key,reason,ref)")
  else Action.query (.insertGrant ⟨workspaceID, period now, key, amount, reason, refID, none⟩)

def grant (workspaceID key reason refID : String) (amount : Int) (now : Time) : Act Bool :=
  grantOnce workspaceID key reason refID amount now

/-- `GrantTx` in a transaction that its caller commits, or rolls back. -/
def grantTx (workspaceID key reason refID : String) (amount : Int) (now : Time) (commits : Bool) :
    Act Bool :=
  Action.inTx do
    let unlocked ← grantOnce workspaceID key reason refID amount now
    if commits then
      Action.commit
      return unlocked
    else return unlocked

def grantCycleMonthly : String := "monthly"

def grantPeriodic (workspaceID key reason refID : String) (amount : Int) (cycle : String)
    (now : Time) : Act Bool :=
  if Strings.trimSpace refID = "" then
    refuse (Webx.newValidation
      "refID required: GrantPeriodic is idempotent on (workspace,key,reason,ref)")
  else if cycle ≠ grantCycleMonthly then
    refuse (Webx.newValidation
      ("unsupported grant cycle " ++ cycle ++ ": only 'monthly' is supported"))
  else Action.query (.insertGrant ⟨workspaceID, period now, key, amount, reason, refID, some cycle⟩)

def refreshPeriodicGrants (now : Time) : Act (List GrantIssued) := do
  let gs ← Action.query (.refreshGrants (period now))
  return gs.map fun g => ⟨g.workspaceID, g.counterKey, g.reason, g.refID, g.amount, period now⟩

end Ploykit.Quota

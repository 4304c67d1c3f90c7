import Ploykit.Billing.Services
import Ploykit.Lib.Confined

/-!
# Registering channel products

`RegisterChannelProduct` of `billing/app/service_channels.go` and
`RegisterChannelProductAtomic` of `billing/adapters/pgrepo`, call by call. A
statement sees what is committed when it runs, and what its own transaction has
written. An advisory lock is held until the transaction ends, and a transaction
that commits has its rows seen before it lets go of the lock.

Every statement may fail. A commit that fails may have been applied. The channel
is asked from inside the transaction, and remembers what it was asked even if the
transaction is rolled back. The audit record is left out.
-/

namespace Ploykit.Billing.Registration

open Lib

/-! ## The service -/

/-- The primary key of `billing_channel_products`. -/
abbrev Mapping := String × String × BillingInterval

inductive Err (E R : Type) where
  | web (e : Webx.Error)
  | store (e : E)
  | remote (e : R)
  /-- `register product on %s: %w` -/
  | registerProductOn (channel : String) (cause : Err E R)
  deriving DecidableEq

/-- The arguments of a call. -/
structure Call where
  channel : String
  planCode : String
  interval : String
  now : Time
  deriving DecidableEq, Repr

/-- What the service is built with. -/
structure Service where
  channels : ChannelSet
  currency : String

/-- A row that `WHERE code = $1` selects. -/
abbrev PlanOf (planCode : String) := { plan : Plan // plan.code = planCode }

variable {E R : Type}

inductive Op (E R : Type) : Type → Type
  | getPlan (planCode : String) : Op E R (Except E (Option (PlanOf planCode)))
  | getChannelProduct (m : Mapping) : Op E R (Except E (Option ChannelProduct))
  | begin : Op E R (Except E Unit)
  /-- `SELECT pg_advisory_xact_lock(hashtext($1))` -/
  | advisoryXactLock (lockKey : String) : Op E R (Except E Unit)
  | selectChannelProductID (m : Mapping) : Op E R (Except E (Option String))
  /-- `INSERT ... ON CONFLICT (channel, plan_code, interval) DO UPDATE` -/
  | upsertChannelProduct (p : ChannelProduct) : Op E R (Except E Unit)
  | commit : Op E R (Except E Unit)
  | rollback : Op E R Unit
  /-- `reg.RegisterProduct`, a REST call. -/
  | registerProduct (channel : String) (plan : Plan) (interval : BillingInterval) : Op E R (Except R String)
  /-- The caller gets its result. -/
  | respond (call : Call) (result : Except (Err E R) String) : Op E R Unit

abbrev Svc (E R : Type) := Proc (Op E R) (Err E R)

def query {α : Type} (o : Op E R (Except E α)) : Svc E R α := Proc.perform .store o

def lockKey (m : Mapping) : String := m.1 ++ "/" ++ m.2.1 ++ "/" ++ m.2.2.text

/-- The result is the id, and whether the mapping was there already. -/
def registerChannelProductAtomic (m : Mapping) (register : Svc E R String) (syncedPriceCents : Int) (syncedAt : Time) :
    Svc E R (String × Bool) := do
  query .begin
  Proc.deferring .rollback do
    query (.advisoryXactLock (lockKey m))
    match ← query (.selectChannelProductID m) with
    | some existingID => return (existingID, true)
    | none =>
      let id ← register
      query (.upsertChannelProduct ⟨m.1, m.2.1, m.2.2, id, syncedPriceCents, some syncedAt⟩)
      query .commit
      return (id, false)

def parseCatalogInterval (v : String) : Option BillingInterval :=
  if v = "monthly" then some .monthly else if v = "yearly" then some .yearly else none

def codeChannelProductUnsupported : String := "E_CHANNEL_PRODUCT_UNSUPPORTED"

def registerChannelProduct (svc : Service) (call : Call) : Svc E R String :=
  match parseCatalogInterval call.interval with
  | none => throw (.web (Webx.newValidation "interval must be monthly or yearly"))
  | some iv =>
  match svc.channels call.channel with
  | none => throw (.web (Webx.newNotFound ("unknown payment channel: " ++ call.channel)))
  | some ch =>
  if ¬ ch.registersProducts then
    throw (.web (Webx.newError 400 codeChannelProductUnsupported
      ("payment channel does not support product registration: " ++ call.channel)))
  else do
  match ← query (.getPlan call.planCode) with
  | none => throw (.web (Webx.newNotFound ("plan not found: " ++ call.planCode)))
  | some ⟨plan, _⟩ =>
  if ¬ channelCurrencyAllowed ch (planCurrency plan svc.currency) then
    throw (.web (errChannelCurrencyUnsupported call.channel (planCurrency plan svc.currency) call.planCode))
  else do
  match ← query (.getChannelProduct (call.channel, call.planCode, iv)) with
  | some existing => return existing.channelProductID
  | none =>
  let amount := planAmountCents plan iv
  if amount ≤ 0 then
    throw (.web (Webx.newValidation ("plan is not priced for this interval: " ++ call.planCode)))
  else do
  let result ← Proc.wrapping (.registerProductOn call.channel)
    (registerChannelProductAtomic (call.channel, call.planCode, iv)
      (Proc.perform .remote (.registerProduct call.channel plan iv)) amount call.now)
  return result.1

/-- A request that makes the call and answers it. -/
def serve (svc : Service) (call : Call) : Script (Op E R) Unit :=
  (registerChannelProduct svc call).run.bind fun result => Script.op (.respond call result)

def requests (svc : Service) (m : Script (Op E R) Unit) : Prop := ∃ call, m = serve svc call

/-! ## The database and the channels -/

structure Tx where
  xid : Nat
  locks : List Int
  writes : List ChannelProduct
  deriving DecidableEq

/-- A registration that a channel was asked for, and the transaction it was asked in. -/
structure Attempt (R : Type) where
  xid : Option Nat
  mapping : Mapping
  result : Except R String

/-- The committed tables and the open transactions of the sessions. `attempts`,
`committed` and `returned` list what has happened, the latest first. -/
structure World (E R : Type) where
  plans : List Plan
  products : Mapping → Option ChannelProduct
  tx : Nat → Option Tx := fun _ => none
  nextXid : Nat := 0
  attempts : List (Attempt R) := []
  committed : List Nat := []
  returned : List (Call × Except (Err E R) String) := []

namespace World

def getPlan (w : World E R) (planCode : String) : Option (PlanOf planCode) :=
  w.plans.findSome? fun plan => if h : plan.code = planCode then some ⟨plan, h⟩ else none

def put (products : Mapping → Option ChannelProduct) (p : ChannelProduct) : Mapping → Option ChannelProduct :=
  Function.update products p.key (some p)

/-- The rows with the writes of a transaction on top. -/
def view (w : World E R) (t : Tx) : Mapping → Option ChannelProduct := t.writes.foldl put w.products

def setTx (w : World E R) (i : Nat) (t : Option Tx) : World E R := { w with tx := Function.update w.tx i t }

/-- The transaction of session `i` has been applied. -/
def applied (w : World E R) (i : Nat) (t : Tx) : World E R :=
  { w.setTx i none with products := w.view t, committed := t.xid :: w.committed }

def Committed (w : World E R) (a : Attempt R) : Prop := ∃ x ∈ w.committed, a.xid = some x

/-- The registrations for a mapping, the latest first. -/
def attemptsFor (w : World E R) (m : Mapping) : List (Attempt R) := w.attempts.filter fun a => a.mapping = m

end World

/-- `step hashtext i o w r w'`: session `i` may execute `o` in `w`, get `r` and leave `w'`. -/
def step (hashtext : String → Int) (i : Nat) : {β : Type} → Op E R β → World E R → β → World E R → Prop
  | _, .getPlan planCode, w, r, w' => w' = w ∧ (r = .ok (w.getPlan planCode) ∨ ∃ e, r = .error e)
  | _, .getChannelProduct m, w, r, w' => w' = w ∧ (r = .ok (w.products m) ∨ ∃ e, r = .error e)
  | _, .begin, w, r, w' =>
    (r = .ok () ∧ w' = { w.setTx i (some ⟨w.nextXid, [], []⟩) with nextXid := w.nextXid + 1 }) ∨ (w' = w ∧ ∃ e, r = .error e)
  | _, .advisoryXactLock key, w, r, w' =>
    -- the statement waits while another session holds the lock
    (∃ t, w.tx i = some t ∧ (∀ j u, j ≠ i → w.tx j = some u → hashtext key ∉ u.locks) ∧ r = .ok () ∧
      w' = w.setTx i (some { t with locks := hashtext key :: t.locks })) ∨ (w' = w ∧ ∃ e, r = .error e)
  | _, .selectChannelProductID m, w, r, w' =>
    w' = w ∧ ((∃ t, w.tx i = some t ∧ r = .ok ((w.view t m).map (·.channelProductID))) ∨ ∃ e, r = .error e)
  | _, .upsertChannelProduct p, w, r, w' =>
    -- the statement waits while another session has written the key
    (∃ t, w.tx i = some t ∧ (∀ j u, j ≠ i → w.tx j = some u → ∀ q ∈ u.writes, q.key ≠ p.key) ∧ r = .ok () ∧
      w' = w.setTx i (some { t with writes := t.writes ++ [p] })) ∨ (w' = w ∧ ∃ e, r = .error e)
  | _, .commit, w, r, w' =>
    (∃ t, w.tx i = some t ∧ w' = w.applied i t ∧ (r = .ok () ∨ ∃ e, r = .error e)) ∨ (w' = w.setTx i none ∧ ∃ e, r = .error e)
  | _, .rollback, w, _, w' => w' = w.setTx i none
  | _, .registerProduct channel plan interval, w, r, w' =>
    w' = { w with attempts := ⟨(w.tx i).map (·.xid), (channel, plan.code, interval), r⟩ :: w.attempts }
  | _, .respond call result, w, _, w' => w' = { w with returned := (call, result) :: w.returned }

/-- Any number of sessions, on any number of processes. A session that is cut off loses its transaction. -/
def machine (hashtext : String → Int) : Machine (Op E R) (World E R) where
  step i _ o w r w' := step hashtext i o w r w'
  abort i w := w.setTx i none
  env _ _ := False

end Ploykit.Billing.Registration

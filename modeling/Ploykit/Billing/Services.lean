import Ploykit.Billing.Webhooks
import Ploykit.Quota.Model

/-!
# Billing services

The operations of `billing/app` other than webhooks, and the change of plan of
`admin/app`. The hooks, the audit records, the log lines and the meters' display
data are left out. What an operation takes from the clock is an argument.
-/

namespace Ploykit.Billing

open Lib

/-- The principal of a request. -/
structure Principal where
  userID : String
  workspaceID : String
  email : String
  deriving DecidableEq, Repr

structure Config where
  successURL : String
  cancelURL : String
  currency : String
  locale : String
  autoRegisterCatalog : Bool
  deriving DecidableEq, Repr

/-- `if err != nil { return err }` -/
def orReturn {α β : Type} (r : Except Err α) (k : α → Svc (Except Err β)) : Svc (Except Err β) :=
  match r with
  | .ok a => k a
  | .error err => return .error err

def refuse {α : Type} (e : Webx.Error) : Svc (Except Err α) := return .error (.web e)

/-! ## Checkout -/

def channelCurrencyAllowed (channel : Channel) (currency : String) : Bool :=
  channel.currencies.isEmpty || channel.currencies.any fun c => Strings.equalFold c currency

def errChannelCurrencyUnsupported (channelName currency planCode : String) : Webx.Error :=
  Webx.newValidation ("渠道 " ++ channelName ++ " 不支持币种 " ++ currency ++ "（套餐 " ++ planCode
    ++ "）：请先调整套餐币种或在渠道侧开通该币种，再注册渠道商品")

/-- The text of an interval. -/
def BillingInterval.text : BillingInterval → String
  | .monthly => "monthly"
  | .yearly => "yearly"
  | .oneTime => "one_time"

def errProductNotRegistered (channelName planCode : String) (interval : BillingInterval) : Webx.Error :=
  Webx.newValidation ("渠道 " ++ channelName ++ " 尚未注册套餐 " ++ planCode ++ "（" ++ interval.text
    ++ "）的渠道商品，请管理员在后台计费 → 渠道页完成商品注册后再发起支付")

def resolveChannelProduct (cfg : Config) (channel : Channel) (channelName : String) (plan : Plan)
    (interval : BillingInterval) (amount : Int) (now : Time) : Svc (Except Err String) :=
  if ¬ channel.catalogBased then return .ok ""
  else if ¬ channelCurrencyAllowed channel (planCurrency plan cfg.currency) then
    refuse (errChannelCurrencyUnsupported channelName (planCurrency plan cfg.currency) plan.code)
  else do
    orReturn (← Script.op (.getChannelProduct channelName plan.code interval)) fun found => do
    let static := match channel.staticProductID with
      | some f => f plan.code interval
      | none => ""
    match found with
    | some p => return .ok p.channelProductID
    | none =>
      if static ≠ "" then return .ok static
      else if channel.registersProducts ∧ cfg.autoRegisterCatalog then do
        match ← Script.op (.registerChannelProductAtomic channelName plan.code interval amount now) with
        | .ok (id, _) => return .ok id
        | .error err => return .error (.text ("register channel product: " ++ err.message))
      else refuse (errProductNotRegistered channelName plan.code interval)

/-- A missing directory entry degrades to no prefill. -/
def resolveBuyerEmail (userID : String) : Svc String := do
  match ← Script.op (.buyerEmail userID) with
  | .ok email => return email
  | .error _ => return ""

def createCheckout (cfg : Config) (channels : ChannelSet) (p : Principal)
    (workspaceID planCode : String) (interval : BillingInterval) (channelName : String) (now : Time) :
    Svc (Except Err CheckoutSession) := do
  orReturn (← Script.op (.getPlan planCode)) fun found => do
  match found with
  | none => refuse (Webx.newNotFound ("plan not found: " ++ planCode))
  | some plan =>
  match channels channelName with
  | none => refuse (Webx.newValidation ("unknown payment channel: " ++ channelName))
  | some channel =>
  let amount := planAmountCents plan interval
  if amount ≤ 0 then
    refuse (Webx.newValidation ("plan is not priced for this interval: " ++ planCode))
  else do
  orReturn (← resolveChannelProduct cfg channel channelName plan interval amount now)
    fun channelProductID => do
  let row : Order :=
    { workspaceID, userID := p.userID, planCode, interval, amountCents := amount,
      currency := planCurrency plan cfg.currency, channel := channelName, status := .pending,
      trialDays := plan.trialDays }
  orReturn (← Script.op (.createOrder row)) fun order => do
  let buyerEmail ← resolveBuyerEmail order.userID
  let req : CheckoutRequest :=
    { order, successURL := cfg.successURL, cancelURL := cfg.cancelURL, buyerEmail,
      locale := cfg.locale, channelProductID }
  match ← Script.op (.createCheckout channelName req) with
  | .error err => do
    let _ ← Script.op (.updateOrderStatus order.id .pending .failed now)
    return .error (.text ("create checkout: " ++ err.message))
  | .ok session => do
    let _ ← Script.op (.setOrderChannelRefAndExpiry order.id session.sessionRef session.expiresAt)
    return .ok session

/-! ## Pending orders -/

def cancelPendingOrder (channels : ChannelSet) (p : Principal) (orderID : String) (now : Time) :
    Svc (Except Err Unit) :=
  if p.workspaceID = "" then refuse (Webx.newValidation "workspace context required")
  else do
    match ← Script.op (.getOrder orderID) with
    | .error _ => refuse (Webx.newNotFound "order not found")
    | .ok none => refuse (Webx.newNotFound "order not found")
    | .ok (some order) =>
      if order.workspaceID ≠ p.workspaceID then refuse (Webx.newNotFound "order not found")
      else if order.status ≠ .pending then refuse (Webx.newConflict "order is not pending")
      else
        orReturn (← Script.op (.cancelOrder orderID .pending .user now)) fun () => do
        match channels order.channel with
        | none => return .ok ()
        | some ch =>
          if order.channelRef ≠ "" ∧ ch.cancelsCheckouts then do
            let _ ← Script.op (.cancelCheckout order.channel order.channelRef)
            return .ok ()
          else return .ok ()

/-- `return webx.NewConflict("order is not pending")` on a status conflict. -/
def notPendingError : Err → Err
  | .statusConflict => .web (Webx.newConflict "order is not pending")
  | err => err

def adminCancelPendingOrder (orderID : String) (now : Time) : Svc (Except Err Unit) := do
  orReturn (← Script.op (.getOrder orderID)) fun found => do
  match found with
  | none => refuse (Webx.newNotFound "order not found")
  | some order =>
    if order.status ≠ .pending then refuse (Webx.newConflict "order is not pending")
    else do
      match ← Script.op (.cancelOrder orderID .pending .admin now) with
      | .ok () => return .ok ()
      | .error err => return .error (notPendingError err)

def markOrderPaid (orderID : String) (now : Time) : Svc (Except Err Unit) := do
  orReturn (← Script.op (.getOrder orderID)) fun found => do
  match found with
  | none => refuse (Webx.newNotFound "order not found")
  | some order =>
    if order.channel ≠ channelManual then
      refuse (Webx.newValidation "only manual orders can be marked paid")
    else do
      match ← Script.op (.payOrder orderID now) with
      | .ok () => return .ok ()
      | .error err => return .error (notPendingError err)

/-! ## Sweeps -/

def expireStaleOrders (now : Time) (limit : Nat) : Svc (Except Err (List String)) := do
  orReturn (← Script.op (.expireStaleOrders now limit)) fun expired =>
    return .ok (expired.map ExpiredOrder.id)

def expireDueWorkspaces (now : Time) (limit : Nat) : Svc (Except Err (List ExpiredWorkspace)) :=
  Script.op (.expireDueWorkspaces now limit)

/-! ## Subscriptions -/

inductive CancelOutcome where
  | cancelled
  | periodEnd
  | operatorPending
  deriving DecidableEq, Repr

def channelCancelTiming (channel : Channel) : CancelTiming := channel.cancelTiming.getD .periodEnd

/-- The loop of `locateSubscriptionChannel` over the newest orders. -/
def locateChannel (channels : ChannelSet) : List Order → Option Channel × String
  | [] => (none, "cannot locate subscription channel (no paid recurring order)")
  | o :: orders =>
    if o.status ≠ .paid ∨ o.interval = .oneTime then locateChannel channels orders
    else match channels o.channel with
      | none => (none, "subscription channel not registered: " ++ o.channel)
      | some ch => (some ch, "")

def locateSubscriptionChannel (channels : ChannelSet) (workspaceID : String) :
    Svc (Except Err (Option Channel × String)) := do
  orReturn (← Script.op (.listOrdersByWorkspace workspaceID 20)) fun orders =>
    return .ok (locateChannel channels orders)

def replayCancelOutcome (channels : ChannelSet) (workspaceID subRef fromPlan : String) :
    Svc (Except Err CancelOutcome) :=
  if subRef = "" ∧ fromPlan = "free" then return .ok .cancelled
  else if subRef ≠ "" then do
    orReturn (← locateSubscriptionChannel channels workspaceID) fun located =>
      match located.1 with
      | some ch =>
        if ch.cancelsSubscriptions ∧ channelCancelTiming ch ≠ .immediate then return .ok .periodEnd
        else return .ok .operatorPending
      | none => return .ok .operatorPending
  else return .ok .operatorPending

def requestCancel (workspaceID : String) (outcome : CancelOutcome) (now : Time) :
    Svc (Except Err CancelOutcome) := do
  orReturn (← Script.op (.setWorkspaceCancelRequested workspaceID now)) fun () =>
    return .ok outcome

def errChannelCancelFailed (err : Err) : Webx.Error :=
  Webx.newError 502 "E_INTERNAL" ("取消渠道订阅失败，已保持本地状态不变: " ++ err.message)

def userCancelSubscription (channels : ChannelSet) (p : Option Principal) (workspaceID : String)
    (now : Time) : Svc (Except Err CancelOutcome) := do
  match p with
  | none => refuse (Webx.newUnauthenticated "authentication and workspace context required")
  | some p =>
  if p.workspaceID = "" then
    refuse (Webx.newUnauthenticated "authentication and workspace context required")
  else if p.workspaceID ≠ workspaceID then refuse (Webx.newNotFound "workspace not found")
  else do
  orReturn (← Script.op (.getWorkspaceSubscription workspaceID)) fun found => do
  match found with
  | none => refuse (Webx.newNotFound "workspace not found")
  | some subRef =>
  orReturn (← Script.op (.getWorkspacePlan workspaceID)) fun fromPlan => do
  orReturn (← Script.op (.getWorkspaceCancelRequested workspaceID)) fun pending => do
  if pending.isSome then replayCancelOutcome channels workspaceID subRef fromPlan
  else if subRef = "" ∧ fromPlan = "free" then
    refuse (Webx.newConflict "workspace has no active subscription")
  else if subRef = "" then requestCancel workspaceID .operatorPending now
  else do
  orReturn (← locateSubscriptionChannel channels workspaceID) fun located => do
  match located.1.filter Channel.cancelsSubscriptions with
  | none => requestCancel workspaceID .operatorPending now
  | some ch =>
  match ← Script.op (.cancelSubscription ch.name subRef) with
  | .error err => refuse (errChannelCancelFailed err)
  | .ok () =>
  if channelCancelTiming ch = .immediate then do
    orReturn (← Script.op (.changeWorkspacePlan workspaceID "free" ("user:" ++ p.userID)
      "user cancel" now)) fun () => do
    orReturn (← Script.op (.setWorkspaceSubscription workspaceID "" zeroTime now)) fun () =>
      return .ok .cancelled
  else requestCancel workspaceID .periodEnd now

def codeChannelCancelUnsupported : String := "E_CHANNEL_CANCEL_UNSUPPORTED"

def adminActor (actor : Option Principal) : String :=
  match actor with
  | some p => if p.userID ≠ "" then "admin:" ++ p.userID else "admin"
  | none => "admin"

def adminCancelSubscription (channels : ChannelSet) (actor : Option Principal) (workspaceID : String)
    (now : Time) : Svc (Except Err Unit) := do
  orReturn (← Script.op (.getWorkspaceSubscription workspaceID)) fun found => do
  match found with
  | none => refuse (Webx.newNotFound "workspace not found")
  | some subRef =>
  orReturn (← Script.op (.getWorkspacePlan workspaceID)) fun fromPlan => do
  if subRef = "" ∧ fromPlan = "free" then
    refuse (Webx.newConflict "workspace has no active subscription")
  else do
  let downgrade : Svc (Except Err Unit) := do
    orReturn (← Script.op (.changeWorkspacePlan workspaceID "free" (adminActor actor)
      "admin cancel" now)) fun () => do
    orReturn (← Script.op (.setWorkspaceSubscription workspaceID "" zeroTime now)) fun () =>
      Script.op (.clearWorkspaceCancelRequested workspaceID)
  if subRef ≠ "" then do
    orReturn (← locateSubscriptionChannel channels workspaceID) fun located => do
    match located with
    | (none, reason) => refuse (Webx.newError 400 codeChannelCancelUnsupported reason)
    | (some ch, _) =>
      if ¬ ch.cancelsSubscriptions then
        refuse (Webx.newError 400 codeChannelCancelUnsupported
          ("payment channel does not support subscription cancel: " ++ ch.name))
      else do
        match ← Script.op (.cancelSubscription ch.name subRef) with
        | .error err => refuse (errChannelCancelFailed err)
        | .ok () => downgrade
  else downgrade

/-- `AdminService.ChangePlan` -/
def changePlan (p : Principal) (workspaceID toPlan : String) (now : Time) : Svc (Except Err Unit) := do
  orReturn (← Script.op (.getPlan toPlan)) fun found =>
    if found.isNone then refuse (Webx.newValidation ("unknown plan_code: " ++ toPlan))
    else Script.op (.changeWorkspacePlan workspaceID toPlan p.email "admin manual" now)

/-! ## Metering -/

structure MeteredDim where
  dim : String
  unitCents : Int
  included : Int
  deriving DecidableEq, Repr

/-- The entry of `byDim` for the dimension, changed, or added at the end. -/
def addDim (dim : String) (f : MeteredDim → MeteredDim) : List MeteredDim → List MeteredDim
  | [] => [f ⟨dim, 0, 0⟩]
  | m :: ms => if m.dim = dim then f m :: ms else m :: addDim dim f ms

/-- One round of the loop of `meteredDims`. -/
def meterEntry (byDim : List MeteredDim) (e : String × Int) : List MeteredDim :=
  match Strings.cutPrefix e.1 "metered_" with
  | none => byDim
  | some rest =>
    match Strings.cutSuffix rest "_unit_cents" with
    | some dim => addDim dim (fun m => { m with unitCents := e.2 }) byDim
    | none =>
      match Strings.cutSuffix rest "_included" with
      | some dim => addDim dim (fun m => { m with included := e.2 }) byDim
      | none => byDim

def meteredDims (limits : Limits) : List MeteredDim :=
  ((limits.entries.foldl meterEntry []).filter fun m => m.unitCents > 0).insertionSort
    fun a b => a.dim ≤ b.dim

structure OverageItem where
  dim : String
  used : Int
  included : Int
  unitCents : Int
  deriving DecidableEq, Repr

/-- The items that count, in int64 arithmetic. -/
def overageItems (items : List OverageItem) : List OverageMetaItem :=
  items.filterMap fun it =>
    let units := Quota.wrap64 (it.used - it.included)
    if units ≤ 0 ∨ it.unitCents ≤ 0 then none
    else some ⟨it.dim, it.used, it.included, it.unitCents, units, Quota.wrap64 (units * it.unitCents)⟩

/-- `amount += units * it.UnitCents` -/
def overageAmount (meta' : List OverageMetaItem) : Int :=
  meta'.foldl (fun amount it => Quota.wrap64 (amount + it.overageCents)) 0

def overageCurrency (cfg : Config) (workspaceID : String) : Svc String := do
  match ← Script.op (.getWorkspacePlan workspaceID) with
  | .error _ => return cfg.currency
  | .ok planCode =>
    match ← Script.op (.getPlan planCode) with
    | .ok (some plan) => return planCurrency plan cfg.currency
    | _ => return cfg.currency

def createOverageOrder (cfg : Config) (workspaceID period : String) (items : List OverageItem) :
    Svc (Except Err (Option Order)) :=
  let meta' := overageItems items
  if overageAmount meta' ≤ 0 then return .ok none
  else do
    let currency ← overageCurrency cfg workspaceID
    Script.op (.insertOverageOrder
      { workspaceID, interval := .oneTime, amountCents := overageAmount meta', currency,
        channel := channelManual, status := .pending,
        metadata := { overagePeriod := some period, items := meta' } })

/-- The period of the month before: the dates of the first of the month before. -/
def previousMonthPeriod (now : Time) : String :=
  let d := Calendar.date now
  let m := d.month - 1 + 11
  Calendar.padded 4 (d.year - 1 + m / 12).toNat ++ "-" ++ Calendar.padded 2 (m % 12 + 1).toNat

/-- The usage of each dimension; one that cannot be read is skipped. -/
def readUsage (workspaceID period : String) : List MeteredDim → Svc (List OverageItem)
  | [] => return []
  | m :: ms => do
    match ← Script.op (.usage workspaceID m.dim period) with
    | .error _ => readUsage workspaceID period ms
    | .ok used => return ⟨m.dim, used, m.included, m.unitCents⟩ :: (← readUsage workspaceID period ms)

/-- The loop of `MeterDueOverages` over its candidates. -/
def meterWorkspaces (cfg : Config) (now : Time) : List MeteredWorkspace → Svc (List Order)
  | [] => return []
  | c :: cs =>
    if ∃ t ∈ c.planExpiresAt, now < t then do
      let items ← readUsage c.workspaceID (previousMonthPeriod now) (meteredDims c.limits)
      match ← createOverageOrder cfg c.workspaceID (previousMonthPeriod now) items with
      | .ok (some order) => return order :: (← meterWorkspaces cfg now cs)
      | _ => meterWorkspaces cfg now cs
    else meterWorkspaces cfg now cs

def meterDueOverages (cfg : Config) (now : Time) (limit : Int) : Svc (Except Err (List Order)) := do
  let limit := if limit ≤ 0 then 50 else limit
  orReturn (← Script.op (.listMeteredWorkspaces limit.toNat)) fun candidates =>
    return .ok (← meterWorkspaces cfg now candidates)

end Ploykit.Billing

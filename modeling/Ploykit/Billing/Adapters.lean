import Ploykit.Billing.Registry
import Ploykit.Platform.GoString

/-!
# Payment channels

The factories of `main.go` over the saved fields of a channel and the environment, and what a
channel shows through the interfaces that cards read. A slice expression that is out of range
panics. Whether a string is an RSA key in one of its forms is a parameter; what is only used
to pay is left out.

A mask cuts a value between bytes, so a character of a shown mask stands for a byte.
-/

namespace Ploykit.Billing.Adapters

open Registry

/-! ## Masks -/

inductive Panic where
  | sliceBoundsOutOfRange
  deriving DecidableEq, Repr

/-- A computation that may panic. -/
abbrev Go (α : Type) := Except Panic α

/-- `len` counts bytes. -/
def bytes (s : String) : GoString := s.toList.flatMap String.utf8EncodeChar

def text (s : GoString) : String := String.ofList (s.map Char.ofUInt8)

/-- `s[low:high]` -/
def slice (s : GoString) (low high : Nat) : Go GoString :=
  if low ≤ high ∧ high ≤ s.length then .ok ((s.drop low).take (high - low)) else .error .sliceBoundsOutOfRange

def stars : GoString := GoString.lit "***"

/-- `maskID` of waffo and of paypal. -/
def maskID (id : GoString) : Go GoString := do
  if id = [] then return []
  else if id.length ≤ 8 then return (← slice id 0 3) ++ stars
  else return (← slice id 0 7) ++ stars ++ (← slice id (id.length - 3) id.length)

/-- `maskKey` of stripe. -/
def maskKey (k : GoString) : Go GoString := do
  if k = [] then return []
  else if k.length ≤ 12 then return stars
  else return (← slice k 0 8) ++ stars ++ (← slice k (k.length - 4) k.length)

/-- `maskSecret` of the simulated channels. -/
def maskSecret (s : GoString) : Go GoString := do
  if s.length ≤ 8 then return stars
  else return (← slice s 0 4) ++ stars ++ (← slice s (s.length - 2) s.length)

/-! ### What they keep -/

section masks

variable {s : GoString} {low high : Nat}

theorem slice_ok (hlow : low ≤ high) (hhigh : high ≤ s.length) : slice s low high = .ok ((s.drop low).take (high - low)) :=
  if_pos ⟨hlow, hhigh⟩

/-- `s[:n] + "***" + s[len(s)-m:]` -/
def masked (s : GoString) (n m : Nat) : GoString := s.take n ++ stars ++ s.drop (s.length - m)

theorem masked_ok {n m : Nat} (hn : n ≤ s.length) :
    (do return (← slice s 0 n) ++ stars ++ (← slice s (s.length - m) s.length) : Go GoString) = .ok (masked s n m) := by
  rw [slice_ok (Nat.zero_le n) hn, slice_ok (Nat.sub_le s.length m) le_rfl]
  have htail : (s.drop (s.length - m)).take (s.length - (s.length - m)) = s.drop (s.length - m) :=
    List.take_of_length_le (by rw [List.length_drop])
  simp only [bind, Except.bind, pure, Except.pure, masked, htail, List.drop_zero, Nat.sub_zero]

/-- The middle of a string does not show. -/
theorem masked_append_self {n m : Nat} (hn : n ≤ s.length) (hm : m ≤ s.length) : masked (s ++ s) n m = masked s n m := by
  have htail : (s ++ s).drop ((s ++ s).length - m) = s.drop (s.length - m) := by
    rw [List.length_append, Nat.add_sub_assoc hm, List.drop_length_add_append]
  rw [masked, masked, List.take_append_of_le_length hn, htail]

/-- An id that `maskID` can mask. -/
def Fits (id : GoString) : Prop := id.length ≠ 1 ∧ id.length ≠ 2

instance (id : GoString) : Decidable (Fits id) := inferInstanceAs (Decidable (_ ∧ _))

theorem maskID_ok_iff {id : GoString} : (∃ m, maskID id = .ok m) ↔ Fits id := by
  unfold maskID Fits
  split
  · rename_i hnil
    simp [hnil, pure, Except.pure]
  · rename_i hne
    have hpos : 0 < id.length := List.length_pos_of_ne_nil hne
    split
    · by_cases hlen : 3 ≤ id.length
      · rw [slice_ok (Nat.zero_le 3) hlen]
        exact ⟨fun _ => by omega, fun _ => ⟨_, rfl⟩⟩
      · have hpanic : slice id 0 3 = .error .sliceBoundsOutOfRange := if_neg fun h => hlen h.2
        rw [hpanic]
        constructor
        · rintro ⟨m, hm⟩
          cases hm
        · omega
    · rename_i hlen
      rw [masked_ok (by omega)]
      exact ⟨fun _ => by omega, fun _ => ⟨_, rfl⟩⟩

theorem maskKey_short {k : GoString} (hne : k ≠ []) (hlen : k.length ≤ 12) : maskKey k = .ok stars := by
  rw [maskKey, if_neg hne, if_pos hlen]
  rfl

theorem maskKey_long {k : GoString} (hlen : 12 < k.length) : maskKey k = .ok (masked k 8 4) := by
  have hne : k ≠ [] := List.ne_nil_of_length_pos (by omega)
  rw [maskKey, if_neg hne, if_neg (by omega), masked_ok (by omega)]

theorem maskSecret_short {k : GoString} (hlen : k.length ≤ 8) : maskSecret k = .ok stars := by
  rw [maskSecret, if_pos hlen]
  rfl

theorem maskSecret_long {k : GoString} (hlen : 8 < k.length) : maskSecret k = .ok (masked k 4 2) := by
  rw [maskSecret, if_neg (by omega), masked_ok (by omega)]

theorem maskKey_ok (k : GoString) : ∃ m, maskKey k = .ok m := by
  by_cases hne : k = []
  · exact ⟨[], if_pos hne⟩
  · rcases Nat.lt_or_ge 12 k.length with hlen | hlen
    · exact ⟨_, maskKey_long hlen⟩
    · exact ⟨_, maskKey_short hne hlen⟩

theorem maskSecret_ok (k : GoString) : ∃ m, maskSecret k = .ok m := by
  rcases Nat.lt_or_ge 8 k.length with hlen | hlen
  · exact ⟨_, maskSecret_long hlen⟩
  · exact ⟨_, maskSecret_short hlen⟩

end masks

/-! ## Channels -/

/-- The simulated channels. -/
inductive Dialect where
  | waffo
  | paypal
  | stripe
  deriving DecidableEq, Repr

namespace Dialect

def name : Dialect → String
  | waffo => "simwaffo"
  | paypal => "simpaypal"
  | stripe => "simstripe"

def envSecret : Dialect → String
  | waffo => "SIMWAFFO_SECRET"
  | paypal => "SIMPAYPAL_SECRET"
  | stripe => "SIMSTRIPE_SECRET"

def capabilities : Dialect → ChannelCaps
  | waffo => { displayOrder := 950 }
  | paypal => { supportsCancelURL := true, displayOrder := 951 }
  | stripe => { supportsCancelURL := true, displayOrder := 952 }

end Dialect

inductive Channel where
  | stripe (secretKey webhookSigningKey : String)
  /-- The key for webhooks is there or not. -/
  | waffo (merchantID : String) (webhookPub : Bool)
  | paypal (clientID clientSecret webhookID : String)
  | manual
  | sim (dialect : Dialect) (secret : String)
  /-- `DisabledChannel` -/
  | disabled (chName : String) (schema : List FieldSpec) (caps : ChannelCaps)
  deriving DecidableEq

/-- What `main` wires. -/
structure Wiring where
  getenv : String → String
  production : Bool := true
  parsePrivateKey : String → Except String Unit
  parsePublicKey : String → Except String Unit
  hasChannelSettings : Bool := true
  hasRefresher : Bool := true

/-- `lookup` of `NewFromFields`: a saved value, or that of the environment. -/
def Wiring.lookup (w : Wiring) (envOfField : List (String × String)) (fields : GoMap String) (field : String) : String :=
  let fallback := w.getenv ((envOfField.lookup field).getD "")
  match fields.lookup field with
  | some v => if Strings.trimSpace v ≠ "" then v else fallback
  | none => fallback

def Wiring.envProvidedKeys (w : Wiring) (envOfField : List (String × String)) : List String :=
  (envOfField.filter fun e => Strings.trimSpace (w.getenv e.2) ≠ "").map Prod.fst

/-- The credentials that are missing, by their variables. -/
def missing (credentials : List (String × String)) : List String :=
  (credentials.filter fun e => Strings.trimSpace e.2 = "").map Prod.fst

def partialConfig (channel : String) (missing : List String) : String :=
  channel ++ ": partial " ++ channel ++ " config (missing " ++ missing.headD "" ++ ") would ship a dead checkout"

/-- `strconv.ParseBool` -/
def parseBool (s : String) : Option Bool :=
  if s ∈ ["1", "t", "T", "TRUE", "true", "True"] then some true
  else if s ∈ ["0", "f", "F", "FALSE", "false", "False"] then some false
  else none

def modes : List String := ["test", "prod"]

/-! ### Stripe -/

namespace Stripe

def caps : ChannelCaps := { supportsCancelURL := true, displayOrder := 200, cancelTiming := "immediate" }

def schema : List FieldSpec :=
  [{ key := "secret_key", type := .secret, required := true },
   { key := "webhook_signing_key", type := .secret, required := false },
   { key := "mode", type := .select, required := false, options := modes }]

def disabled : Channel := .disabled "stripe" schema caps

def stripeEnvByField : List (String × String) :=
  [("secret_key", "STRIPE_SECRET_KEY"), ("webhook_signing_key", "STRIPE_WEBHOOK_SIGNING_KEY")]

/-- `get` of the factory in `main.go`. -/
def get (w : Wiring) (fields : GoMap String) (field envName : String) : String :=
  let v := (fields.lookup field).getD ""
  if v ≠ "" then v else w.getenv envName

def factory (w : Wiring) (fields : GoMap String) : Except String Channel :=
  let k := get w fields "secret_key" "STRIPE_SECRET_KEY"
  if k ≠ "" then .ok (.stripe k (get w fields "webhook_signing_key" "STRIPE_WEBHOOK_SIGNING_KEY"))
  else .ok disabled

end Stripe

/-! ### Waffo -/

namespace Waffo

def caps : ChannelCaps :=
  { catalogBased := true, displayOrder := 100, currencies := ["USD", "EUR", "GBP", "HKD", "JPY"], cancelTiming := "period_end" }

def schema : List FieldSpec :=
  [{ key := "merchant_id", type := .text, required := true },
   { key := "private_key", type := .secret, required := true },
   { key := "store_id", type := .text, required := false },
   { key := "product_monthly", type := .text, required := false },
   { key := "product_yearly", type := .text, required := false },
   { key := "webhook_public_key", type := .secret, required := false },
   { key := "mode", type := .select, required := false, options := modes }]

def envOfField : List (String × String) :=
  [("merchant_id", "WAFFO_MERCHANT_ID"), ("private_key", "WAFFO_PRIVATE_KEY"), ("store_id", "WAFFO_STORE_ID"),
   ("product_monthly", "WAFFO_PRODUCT_MONTHLY"), ("product_yearly", "WAFFO_PRODUCT_YEARLY"),
   ("webhook_public_key", "WAFFO_WEBHOOK_PUBLIC_KEY"), ("mode", "WAFFO_MODE")]

def unconfiguredStub : Channel := .disabled "waffo" schema caps

/-- The value is a boolean, if there is one. -/
def checkTaxIncluded (source v : String) : Except String Unit :=
  if v ≠ "" ∧ parseBool v = none then
    .error ("waffo: " ++ source ++ ": strconv.ParseBool: parsing \"" ++ v ++ "\": invalid syntax")
  else .ok ()

/-- `New` -/
def new (w : Wiring) (merchantID privateKey webhookPublicKey : String) : Except String Channel :=
  if Strings.trimSpace merchantID = "" then .error "waffo: merchant id is required"
  else do
    w.parsePrivateKey privateKey
    let s := Strings.trimSpace webhookPublicKey
    if s ≠ "" then w.parsePublicKey s
    return .waffo merchantID (s ≠ "")

def newFromFields (w : Wiring) (fields : GoMap String) : Except String Channel :=
  let lookup := w.lookup envOfField fields
  let merchant := lookup "merchant_id"
  let privKey := lookup "private_key"
  let missing := missing [("WAFFO_MERCHANT_ID", merchant), ("WAFFO_PRIVATE_KEY", privKey)]
  if missing.length = 2 then .ok unconfiguredStub
  else if missing.length = 1 then
    if w.production then .error (partialConfig "waffo" missing) else .ok unconfiguredStub
  else do
    checkTaxIncluded "WAFFO_TAX_INCLUDED" (w.getenv "WAFFO_TAX_INCLUDED")
    checkTaxIncluded "tax_included" (Strings.trimSpace ((fields.lookup "tax_included").getD ""))
    new w merchant privKey (lookup "webhook_public_key")

end Waffo

/-! ### Paypal -/

namespace Paypal

def caps : ChannelCaps :=
  { catalogBased := true, supportsCancelURL := true, displayOrder := 300, cancelTiming := "immediate"
    currencies := ["USD", "EUR", "GBP", "AUD", "CAD", "JPY", "SGD", "HKD", "NZD", "CHF", "SEK", "NOK", "DKK", "PLN", "CZK", "HUF",
      "ILS", "MXN", "BRL", "MYR", "PHP", "TWD", "THB"] }

def schema : List FieldSpec :=
  [{ key := "client_id", type := .text, required := true },
   { key := "client_secret", type := .secret, required := true },
   { key := "webhook_id", type := .text, required := true },
   { key := "mode", type := .select, required := true, options := modes }]

def envOfField : List (String × String) :=
  [("client_id", "PAYPAL_CLIENT_ID"), ("client_secret", "PAYPAL_CLIENT_SECRET"), ("webhook_id", "PAYPAL_WEBHOOK_ID"),
   ("mode", "PAYPAL_MODE")]

def unconfiguredStub : Channel := .disabled "paypal" schema caps

/-- `New` -/
def new (clientID clientSecret webhookID : String) : Except String Channel :=
  if Strings.trimSpace clientID = "" then .error "paypal: client id is required"
  else if Strings.trimSpace clientSecret = "" then .error "paypal: client secret is required"
  else .ok (.paypal clientID clientSecret (Strings.trimSpace webhookID))

def newFromFields (w : Wiring) (fields : GoMap String) : Except String Channel :=
  let lookup := w.lookup envOfField fields
  let clientID := lookup "client_id"
  let clientSecret := lookup "client_secret"
  let missing := missing [("PAYPAL_CLIENT_ID", clientID), ("PAYPAL_CLIENT_SECRET", clientSecret)]
  if missing.length = 2 then .ok unconfiguredStub
  else if missing.length = 1 then
    if w.production then .error (partialConfig "paypal" missing) else .ok unconfiguredStub
  else new clientID clientSecret (lookup "webhook_id")

end Paypal

/-! ### Simulated channels -/

namespace Sim

def schema : List FieldSpec := [{ key := "secret", type := .secret, required := false }]

def defaultSecret (d : Dialect) : String := "sim-dev-secret-" ++ d.name

def resolveSecret (w : Wiring) (d : Dialect) (fields : GoMap String) : String :=
  let v := Strings.trimSpace ((fields.lookup "secret").getD "")
  if v ≠ "" then v
  else
    let v := Strings.trimSpace (w.getenv d.envSecret)
    if v ≠ "" then v else defaultSecret d

/-- `newCore` -/
def new (d : Dialect) (secret : String) : Channel :=
  let secret := Strings.trimSpace secret
  .sim d (if secret = "" then defaultSecret d else secret)

def factory (w : Wiring) (d : Dialect) (fields : GoMap String) : Except String Channel := .ok (new d (resolveSecret w d fields))

end Sim

/-! ## What a channel shows -/

namespace Channel

def name : Channel → String
  | stripe .. => "stripe"
  | waffo .. => "waffo"
  | paypal .. => "paypal"
  | manual => "manual"
  | sim d _ => d.name
  | disabled chName _ _ => chName

def capabilities : Channel → ChannelCaps
  | stripe .. => Stripe.caps
  | waffo .. => Waffo.caps
  | paypal .. => Paypal.caps
  | manual => { displayOrder := 900 }
  | sim d _ => d.capabilities
  | disabled _ _ caps => caps

def configSchema : Channel → List FieldSpec
  | stripe .. => Stripe.schema
  | waffo .. => Waffo.schema
  | paypal .. => Paypal.schema
  | manual => [{ key := "info_url", type := .text, required := false }]
  | sim .. => Sim.schema
  | disabled _ schema _ => schema

/-- `EnvProvidedKeys`, of the channels that have it. -/
def envProvidedKeys (w : Wiring) : Channel → Option (List String)
  | stripe .. => some ((Stripe.stripeEnvByField.filter fun e => w.getenv e.2 ≠ "").map Prod.fst)
  | waffo .. => some (w.envProvidedKeys Waffo.envOfField)
  | paypal .. => some (w.envProvidedKeys Paypal.envOfField)
  | manual => none
  | sim d _ => some (w.envProvidedKeys [("secret", d.envSecret)])
  | disabled .. => none

/-- `ChannelConfig`, of the channels that have it. -/
def channelConfig : Channel → Go (Option ChannelConfigInfo)
  | stripe secretKey webhookSigningKey => do
    let masked ← maskKey (bytes secretKey)
    return some { configured := secretKey ≠ "", keyMasked := text masked, webhookConfigured := webhookSigningKey ≠ "" }
  | waffo merchantID webhookPub => do
    let masked ← maskID (bytes merchantID)
    return some { configured := true, keyMasked := text masked, webhookConfigured := webhookPub }
  | paypal clientID clientSecret webhookID => do
    let masked ← maskID (bytes clientID)
    return some { configured := clientID ≠ "" ∧ clientSecret ≠ "", keyMasked := text masked, webhookConfigured := webhookID ≠ "" }
  | manual => return none
  | sim _ secret => do
    let masked ← maskSecret (bytes secret)
    return some { configured := true, keyMasked := text masked, webhookConfigured := true }
  | disabled .. => return some { configured := false, keyMasked := "", webhookConfigured := false }

/-- All but `ChannelConfig`. -/
def face (w : Wiring) (ch : Channel) : PaymentChannel where
  name := ch.name
  capabilities := some ch.capabilities
  configSchema := some ch.configSchema
  envProvidedKeys := ch.envProvidedKeys w

/-- What it shows when `ChannelConfig` is called as well. -/
def shown (w : Wiring) (ch : Channel) : Go PaymentChannel := do
  let info ← ch.channelConfig
  return { ch.face w with channelConfig := info }

/-- The ids that it masks can be masked. -/
def Maskable : Channel → Prop
  | waffo merchantID _ => Fits (bytes merchantID)
  | paypal clientID _ _ => Fits (bytes clientID)
  | _ => True

instance : (ch : Channel) → Decidable ch.Maskable
  | waffo merchantID _ => inferInstanceAs (Decidable (Fits (bytes merchantID)))
  | paypal clientID _ _ => inferInstanceAs (Decidable (Fits (bytes clientID)))
  | stripe .. => .isTrue trivial
  | manual => .isTrue trivial
  | sim .. => .isTrue trivial
  | disabled .. => .isTrue trivial

theorem channelConfig_ok_iff {ch : Channel} : (∃ info, ch.channelConfig = .ok info) ↔ ch.Maskable := by
  have hbind : ∀ {m : Go GoString} {f : GoString → Option ChannelConfigInfo},
      (∃ info, (do return f (← m) : Go (Option ChannelConfigInfo)) = .ok info) ↔ ∃ x, m = .ok x := by
    intro m f
    cases m with
    | error p => simp [bind, Except.bind]
    | ok x => simp [bind, Except.bind, pure, Except.pure]
  cases ch with
  | stripe k _ => exact hbind.trans (iff_true_intro (maskKey_ok _))
  | waffo id _ => exact hbind.trans maskID_ok_iff
  | paypal id _ _ => exact hbind.trans maskID_ok_iff
  | manual => exact iff_of_true ⟨none, rfl⟩ trivial
  | sim _ k => exact hbind.trans (iff_true_intro (maskSecret_ok _))
  | disabled => exact iff_of_true ⟨_, rfl⟩ trivial

/-- Nothing but the mask of an id can panic. -/
theorem shown_ok_iff {w : Wiring} {ch : Channel} : (∃ face, ch.shown w = .ok face) ↔ ch.Maskable := by
  rw [← channelConfig_ok_iff, shown]
  cases ch.channelConfig with
  | error p => simp [bind, Except.bind]
  | ok info => simp [bind, Except.bind, pure, Except.pure]

end Channel

/-! ## Factories -/

namespace Wiring

variable (w : Wiring)

def simDev : Bool := ¬ w.production ∧ w.getenv "PLOYKIT_DEV_ENABLED" = "1"

/-- `channelFactories` -/
def factories : List (String × (GoMap String → Except String Channel)) :=
  [("stripe", Stripe.factory w), ("waffo", Waffo.newFromFields w), ("paypal", Paypal.newFromFields w),
   ("manual", fun _ => .ok .manual)] ++
  if w.simDev then [Dialect.waffo, .paypal, .stripe].map fun d => (d.name, Sim.factory w d) else []

/-- The fields of one channel. -/
def fieldsOf (fields : Fields) (channel : String) : GoMap String := (fields.lookup channel).getD ∅

/-- What a factory has built is registered under its name. One that fails leaves its channel out. -/
def registered (name : String) : Except String Channel → Option (String × Channel)
  | .ok ch => if ch.name = name then some (name, ch) else none
  | .error _ => none

/-- The channels that the factories build. -/
def build (fields : Fields) : List (String × Channel) :=
  w.factories.filterMap fun e => registered e.1 (e.2 (fieldsOf fields e.1))

end Wiring

end Ploykit.Billing.Adapters

import Mathlib.Data.List.Sort
import Ploykit.Lib.Procedure
import Ploykit.Lib.Schedule
import Ploykit.Platform.Json
import Ploykit.Platform.Webx

/-!
# The registry of payment channels

`AtomicRegistry` over the rows of `site_settings`, and the requests that save the fields of
a channel, call by call. Reading the rows, building the channels from them and installing
the set are separate steps of a goroutine, and other goroutines and processes go on meanwhile.
The audit and logs are left out. What `Seal` answers depends on its input alone.

The settings are kept with the versions before them. Which version the installed set was
built from, and which saves have installed a set, is kept beside the world. Nothing reads it.
-/

namespace Ploykit.Billing.Registry

open Lib Webx
open Lib.Proc (ask attempt)

/-! ## Channels -/

inductive FieldType where
  | text
  | secret
  | select
  deriving DecidableEq, Repr

/-- A field of a `ConfigSchema`, less its texts. -/
structure FieldSpec where
  key : String
  type : FieldType
  required : Bool
  options : List String := []
  deriving DecidableEq, Repr

structure ChannelCaps where
  catalogBased : Bool := false
  supportsCancelURL : Bool := false
  displayOrder : Int := 0
  currencies : List String := []
  cancelTiming : String := ""
  deriving DecidableEq, Repr

structure ChannelConfigInfo where
  configured : Bool
  keyMasked : String
  webhookConfigured : Bool
  deriving DecidableEq, Repr

/-- A channel with what it shows of itself, if it implements the interface. -/
structure PaymentChannel where
  name : String
  capabilities : Option ChannelCaps := none
  channelConfig : Option ChannelConfigInfo := none
  configSchema : Option (List FieldSpec) := none
  envProvidedKeys : Option (List String) := none
  /-- The interface holds a nil pointer. -/
  typedNil : Bool := false
  deriving DecidableEq, Repr

abbrev Channels := GoMap PaymentChannel

/-- The fields of each channel. -/
abbrev Fields := GoMap (GoMap String)

def defaultChannelDisplayOrder : Int := 500

def PaymentChannel.order (ch : PaymentChannel) : Int :=
  match ch.capabilities with
  | some caps => if caps.displayOrder = 0 then defaultChannelDisplayOrder else caps.displayOrder
  | none => defaultChannelDisplayOrder

def sortedChannelEntries (channels : Channels) : List (String × PaymentChannel) :=
  (channels.entries.map fun e => (e.1, e.2)).insertionSort fun a b =>
    a.2.order < b.2.order ∨ a.2.order = b.2.order ∧ a.1 ≤ b.1

def orderedNamesOf (channels : Channels) : List String :=
  ((sortedChannelEntries channels).filter fun e => (e.2.channelConfig.map ChannelConfigInfo.configured).getD true).map Prod.fst

/-! ## Settings -/

inductive Err where
  | api (e : Webx.Error)
  | errNoKey
  /-- `save channel fields: ` and the error -/
  | saveChannelFields (e : Err)
  | other
  deriving DecidableEq, Repr

/-- The rows of `site_settings`. -/
abbrev Table := GoMap String

structure Sealer where
  sealText : String → Except Err String
  unsealText : String → Option String

/-- What the service and the registry are built with. -/
structure Service where
  factories : GoMap (GoMap String → Except String (Option PaymentChannel))
  sealer : Option Sealer := none
  hasChannelSettings : Bool := true
  hasRefresher : Bool := true

def billingChannelKeyPrefix : String := "billing_channel."

def channelSettingsKey (channel field : String) : String := billingChannelKeyPrefix ++ channel ++ "." ++ field

def isSensitive (key : String) : Bool := key = "smtp_pass" || (Strings.cutPrefix key billingChannelKeyPrefix).isSome

/-- The channel and the field of a key, if it has the form of one. -/
def splitKey (key : String) : Option (String × String) :=
  match Strings.cutPrefix key billingChannelKeyPrefix with
  | none => none
  | some rest =>
    let name := rest.toList.takeWhile (· ≠ '.')
    match rest.toList.dropWhile (· ≠ '.') with
    | '.' :: field => if name = [] ∨ field = [] ∨ '.' ∈ field then none else some (String.ofList name, String.ofList field)
    | _ => none

namespace Service

variable (svc : Service)

def sealValue (key value : String) : Except Err String :=
  if ¬ isSensitive key then .ok value
  else match svc.sealer with
    | none => .error .errNoKey
    | some sealer => sealer.sealText value

/-- `out[name][field] = v`, unless the key is of no field or the value cannot be read. -/
def putField (out : Fields) (e : Sigma fun _ : String => String) : Fields :=
  match splitKey e.1 with
  | none => out
  | some (name, field) =>
    let value := if isSensitive e.1 then svc.sealer.bind fun sealer => sealer.unsealText e.2 else some e.2
    match value with
    | none => out
    | some v => out.insert name (((out.lookup name).getD ∅).insert field v)

def billingChannelFields (all : Table) : Fields := all.entries.foldl svc.putField ∅

/-- The channels that the factories build, and their names in order. -/
def build (fields : Fields) : Channels × List String :=
  let channels : Channels := svc.factories.entries.foldl (fun channels e =>
    match e.2 ((fields.lookup e.1).getD ∅) with
    | .ok (some ch) => if ch.typedNil ∨ ch.name ≠ e.1 then channels else channels.insert e.1 ch
    -- unconfigured, or the factory has failed
    | _ => channels) ∅
  (channels, orderedNamesOf channels)

end Service

/-! ## The world -/

inductive Event where
  | get (name : String) (ch : Option PaymentChannel)
  | orderedNames (names : List String)
  /-- A save has returned, its refresh successful. -/
  | saved (version : Nat)
  deriving DecidableEq, Repr

/-- What a session has done, by the versions of the settings. -/
structure Progress where
  /-- The version that it has written. -/
  wrote : Option Nat := none
  /-- The version that it has read last, since it has written. -/
  read : Option Nat := none
  /-- The version that it has written and then installed. -/
  refreshed : Option Nat := none
  deriving DecidableEq, Repr

structure World where
  /-- The table with the versions before it, the first version first. -/
  settings : List Table
  channels : Channels
  names : List String
  /-- The version that the channels are built from, if they are built from one. -/
  built : Option Nat
  /-- The saves that have installed the channels themselves. -/
  refreshed : List Nat
  progress : Nat → Progress
  history : List Event

namespace World

variable (w : World)

def table : Table := w.settings.getLastD ∅

def version : Nat := w.settings.length - 1

def note (i : Nat) (f : Progress → Progress) : World :=
  { w with progress := Function.update w.progress i (f (w.progress i)) }

def record (e : Event) : World := { w with history := e :: w.history }

/-- Rows are stored, in one transaction. An empty map stores nothing. -/
def write (kv : GoMap String) : World :=
  if kv.entries = [] then w
  else { w with settings := w.settings ++ [kv.entries.foldl (fun table e => table.insert e.1 e.2) w.table] }

/-- The channels that the session has built are installed. -/
def install (i : Nat) (channels : Channels) (names : List String) : World :=
  { w with channels, names
           built := (w.progress i).read
           refreshed := (w.progress i).wrote.toList ++ w.refreshed }.note i fun p => { p with refreshed := p.wrote }

end World

/-! ## Calls -/

inductive Op : Type → Type
  /-- A goroutine begins, for the record. -/
  | begin : Op Unit
  /-- It has returned, for the record. -/
  | returned : Op Unit
  | get (name : String) : Op (Option PaymentChannel)
  | orderedNames : Op (List String)
  /-- `SELECT key, value FROM site_settings` -/
  | all : Op (Except Err Table)
  /-- The set of the registry is swapped. -/
  | swap (channels : Channels) (names : List String) : Op Unit
  | writeMany (kv : GoMap String) : Op (Except Err Unit)

/-- One call of session `i`. A statement may fail, and a transaction that fails may have been committed. -/
def Step (i : Nat) : {β : Type} → Op β → World → β → World → Prop
  | _, .begin, w, _, w' => w' = w.note i fun _ => {}
  | _, .returned, w, _, w' => w' = match (w.progress i).refreshed with
    | some version => w.record (.saved version)
    | none => w
  | _, .get name, w, r, w' => r = w.channels.lookup name ∧ w' = w.record (.get name r)
  | _, .orderedNames, w, r, w' => r = w.names ∧ w' = w.record (.orderedNames r)
  | _, .all, w, r, w' => ((∃ e, r = .error e) ∧ w' = w) ∨
      r = .ok w.table ∧ w' = w.note i fun p => { p with read := some w.version }
  | _, .swap channels names, w, _, w' => w' = w.install i channels names
  | _, .writeMany kv, w, r, w' => (kv.entries ≠ [] ∧ (∃ e, r = .error e) ∧ (w' = w ∨ w' = w.write kv)) ∨
      r = .ok () ∧ w' = (w.write kv).note i fun _ => { wrote := some (w.write kv).version }

/-- Meanwhile other processes write settings. -/
def machine : Machine Op World where
  step := Step
  abort _ w := w
  env w w' := ∃ table, w' = { w with settings := w.settings ++ [table] }

/-- An execution of a call, where nothing fails. -/
def World.exec (i : Nat) : {β : Type} → Op β → World → β × World
  | _, .begin, w => ((), w.note i fun _ => {})
  | _, .returned, w => ((), match (w.progress i).refreshed with
    | some version => w.record (.saved version)
    | none => w)
  | _, .get name, w => (w.channels.lookup name, w.record (.get name (w.channels.lookup name)))
  | _, .orderedNames, w => (w.names, w.record (.orderedNames w.names))
  | _, .all, w => (.ok w.table, w.note i fun p => { p with read := some w.version })
  | _, .swap channels names, w => ((), w.install i channels names)
  | _, .writeMany kv, w => (.ok (), (w.write kv).note i fun _ => { wrote := some (w.write kv).version })

theorem World.exec_step (i : Nat) {β : Type} (o : Op β) (w : World) : Step i o w (w.exec i o).1 (w.exec i o).2 := by
  cases o with
  | get name => exact ⟨rfl, rfl⟩
  | orderedNames => exact ⟨rfl, rfl⟩
  | all => exact .inr ⟨rfl, rfl⟩
  | writeMany kv => exact .inr ⟨rfl, rfl⟩
  | _ => rfl

/-! ## Programs -/

abbrev Proc := Lib.Proc Op Err

def refuse {α : Type} (e : Webx.Error) : Proc α := throw (.api e)

namespace Service

variable (svc : Service)

def source : Proc Fields := do
  let all ← attempt .all
  return svc.billingChannelFields all

def rebuild (fields : Fields) : Proc Unit :=
  let (channels, names) := svc.build fields
  ask (.swap channels names)

def refreshNow : Proc Unit := do
  let fields ← svc.source
  svc.rebuild fields

def setMany (kv : GoMap String) : Proc Unit := do
  let sealed_ ← kv.entries.foldlM (fun (m : GoMap String) e =>
    match svc.sealValue e.1 e.2 with
    | .ok v => pure (m.insert e.1 v)
    | .error err => throw err) ∅
  attempt (.writeMany sealed_)

end Service

/-! ## Saving the fields of a channel -/

structure ChannelCard where
  name : String
  configured : Bool := true
  keyMasked : String := "—"
  webhookConfigured : Bool := false
  capabilities : ChannelCaps
  schema : List FieldSpec
  values : GoMap String
  configSource : String
  envProvided : List String := []

def channelSecretSetMarker : String := "__SET__"

def channelFieldValueLimit : Nat := 8192

/-- What the card shows of a stored value. -/
def FieldSpec.shown (spec : FieldSpec) (dbFields : GoMap String) : String :=
  match dbFields.lookup spec.key with
  | none => ""
  | some v => if spec.type = .secret ∧ v ≠ "" then channelSecretSetMarker else v

namespace PaymentChannel

variable (ch : PaymentChannel)

/-- `specByKey[key]`, where the last of the specs with the key counts. -/
def spec (key : String) : Option FieldSpec := (ch.configSchema.getD []).reverse.find? fun spec => spec.key = key

def card (dbFields : GoMap String) : ChannelCard :=
  let schema := ch.configSchema.getD []
  let info := ch.channelConfig.getD { configured := true, keyMasked := "", webhookConfigured := false }
  let keyMasked := if info.keyMasked ≠ "" then info.keyMasked else "—"
  { name := ch.name
    configured := info.configured
    keyMasked := if ¬ info.configured ∧ keyMasked = "—" then "未配置" else keyMasked
    webhookConfigured := info.webhookConfigured
    capabilities := ch.capabilities.getD { displayOrder := defaultChannelDisplayOrder }
    schema
    values := schema.foldl (fun values spec => values.insert spec.key (spec.shown dbFields)) ∅
    configSource := if dbFields.entries ≠ [] then "db" else "env"
    envProvided := ch.envProvidedKeys.getD [] }

/-- What is to be stored of a submitted field, if anything. -/
def checkField (channel key raw : String) : Except Webx.Error (Option String) :=
  match ch.spec key with
  | none => .error (newValidation ("渠道 " ++ channel ++ " 无配置字段 \"" ++ key ++ "\""))
  | some spec =>
    let value := Strings.trimSpace raw
    if value.utf8ByteSize > channelFieldValueLimit then
      .error (newValidation ("字段 " ++ key ++ " 值过长（上限 8192 字符）"))
    else if spec.type = .secret ∧ (value = "" ∨ value = channelSecretSetMarker) then .ok none
    else if spec.type = .select ∧ value ≠ "" ∧ spec.options ≠ [] ∧ value ∉ spec.options then
      .error (newValidation ("字段 " ++ key ++ " 的值必须是 " ++ "/".intercalate spec.options))
    else if value = "" ∧ spec.required ∧ spec.type ≠ .secret ∧ key ∉ ch.envProvidedKeys.getD [] then
      .error (newValidation ("字段 " ++ key ++ " 为必填字段，清空且环境变量未提供（如需回退环境变量，请配置对应 env 后再清空）"))
    else .ok (some value)

/-- The rows to be written, once all fields have passed. -/
def collectWrites (channel : String) (fields : GoMap String) : Except Webx.Error (GoMap String) :=
  fields.entries.foldlM (fun (writes : GoMap String) e => do
    match ← ch.checkField channel e.1 e.2 with
    | some value => pure (writes.insert (channelSettingsKey channel e.1) value)
    | none => pure writes) ∅

end PaymentChannel

def unavailable (msg : String) : Webx.Error := newError 503 "E_UNAVAILABLE" msg

namespace Service

variable (svc : Service)

def channelFields : Proc Fields := if svc.hasChannelSettings then svc.source else return ∅

/-- `SetMany`, its errors as `UpdateChannelFields` returns them. -/
def saveFields (writes : GoMap String) : Proc Unit := do
  match ← ExceptT.lift (svc.setMany writes).run with
  | .ok () => return ()
  | .error err =>
    if err = .errNoKey then
      refuse (unavailable "PLOYKIT_SEAL_KEY 未配置，无法保存凭据：请配置该环境变量并重启后重试（明文凭据一律不入库）")
    else throw (.saveChannelFields err)

/-- The refresh after a save. Its error is logged. -/
def refreshSaved : Proc Unit := do
  if svc.hasRefresher then
    let _ ← ExceptT.lift svc.refreshNow.run
    return ()
  else return ()

def updateChannelFields (channel : String) (fields : GoMap String) : Proc ChannelCard := do
  if ¬ svc.hasChannelSettings then refuse (unavailable "渠道设置存储未接线（channel settings store not wired）")
  else
    match ← ask (.get channel) with
    | none => refuse (newNotFound ("unknown payment channel: " ++ channel))
    | some ch =>
      if ch.configSchema.isNone then
        refuse (newValidation ("payment channel does not support admin configuration: " ++ channel))
      else
        match ch.collectWrites channel fields with
        | .error e => refuse e
        | .ok writes =>
          svc.saveFields writes
          svc.refreshSaved
          let fresh ← ask (.get channel)
          let dbFields ← svc.channelFields
          return (fresh.getD ch).card ((dbFields.lookup channel).getD ∅)

end Service

/-! ## Goroutines -/

/-- The poll and whoever else refreshes, the requests that use a channel or list the names, and those
that save fields. -/
inductive Goroutine where
  | refreshNow
  | get (name : String)
  | orderedNames
  | updateChannelFields (channel : String) (fields : GoMap String)

namespace Goroutine

def exec (svc : Service) : Goroutine → Proc Unit
  | refreshNow => svc.refreshNow
  | get name => do
    let _ ← ask (.get name)
    return ()
  | orderedNames => do
    let _ ← ask .orderedNames
    return ()
  | updateChannelFields channel fields => do
    let _ ← svc.updateChannelFields channel fields
    return ()

def program (svc : Service) (g : Goroutine) : Script Op Unit := do
  Script.op .begin
  let _ ← (g.exec svc).run
  Script.op .returned

end Goroutine

def Program (svc : Service) (m : Script Op Unit) : Prop := ∃ g : Goroutine, m = g.program svc

/-- What `NewAtomicRegistry` leaves, which has read the settings or failed to. -/
def newAtomicRegistry (svc : Service) (table : Table) (ok : Bool) : World :=
  let (channels, names) := svc.build (if ok then svc.billingChannelFields table else ∅)
  { settings := [table], channels, names, built := if ok then some 0 else none
    refreshed := [], progress := fun _ => {}, history := [] }

/-! ### A small registry -/

/-- One channel, which shows the key that it was built with. -/
def stripe (fields : GoMap String) : PaymentChannel where
  name := "stripe"
  channelConfig := some { configured := true, keyMasked := (fields.lookup "secret_key").getD "", webhookConfigured := false }
  configSchema := some [{ key := "secret_key", type := .secret, required := true }]

def plainService : Service where
  factories := AList.singleton "stripe" fun fields => .ok (some (stripe fields))
  sealer := some { sealText := .ok, unsealText := some }

/-- The key has been saved before. -/
def oldTable : Table := AList.singleton "billing_channel.stripe.secret_key" "old"

abbrev Turns := List (Turn Op World Unit)

/-- The goroutine makes so many calls. -/
def calls (i : Nat) (g : Goroutine) (n : Nat) : Turns := [.start i (g.program plainService), .calls i n]

/-- A new key is saved. -/
def saves (i : Nat) : Turns := calls i (.updateChannelFields "stripe" (AList.singleton "secret_key" "new")) 8

theorem calls_legal {M : Machine Op World} (i : Nat) (g : Goroutine) (n : Nat) :
    (calls i g n).Forall (Turn.Legal M (Program plainService)) := ⟨⟨g, rfl⟩, trivial⟩

def execs (i : Nat) {β : Type} (o : Op β) (w : World) : Option (β × World) := some (w.exec i o)

theorem execs_step (i : Nat) {β : Type} (o : Op β) (w : World) (r : β) (w' : World) (h : execs i o w = some (r, w')) :
    machine.step i o w r w' := by
  have hstep := w.exec_step i o
  rw [Option.some.inj h] at hstep
  exact hstep

end Ploykit.Billing.Registry

import Ploykit.Billing.Adapters

/-!
# Channel settings

`UpdateChannelFields`, `ChannelCards` and `BillingConfig` one after the other over the channels of
the example. The settings are the fields that can be unsealed. What the store answers is an
input. A request that panics leaves what it has written; the audit and logs are left out.

Which fields the channels are built from is kept beside them. Nothing reads it.
-/

namespace Ploykit.Billing.Adapters

open Registry Webx

structure World where
  settings : Fields
  channels : List (String × Channel)
  names : List String
  built : Fields

/-- What comes of a transaction. One that fails may have been committed. -/
inductive Write where
  | done
  | noKey
  | failed
  | lost
  deriving DecidableEq, Repr

/-- What the store answers to a request that saves fields. -/
structure Outcomes where
  write : Write := .done
  refresh : Bool := true
  readBack : Bool := true
  deriving DecidableEq, Repr

structure ChannelConfigView where
  name : String
  configured : Bool
  keyMasked : String
  webhookConfigured : Bool := false
  deriving DecidableEq, Repr

def keyMaskUnavailable : String := "—"

def keyNotConfigured : String := "未配置"

def knownChannelNames : List String := ["stripe"]

def World.get (world : World) (name : String) : Option Channel := world.channels.lookup name

/-- A field of a channel. -/
def field (settings : Fields) (channel key : String) : Option String := (Wiring.fieldsOf settings channel).lookup key

/-- Fields are stored over those that a channel has. -/
def put (settings : Fields) (channel : String) (writes : GoMap String) : Fields :=
  settings.insert channel (writes ∪ Wiring.fieldsOf settings channel)

/-- The writes that `UpdateChannelFields` collects, by their fields, once all of them have passed. -/
def collect (face : PaymentChannel) (channel : String) (fields : GoMap String) : Except Webx.Error (GoMap String) :=
  fields.entries.foldlM (fun (writes : GoMap String) e => do
    match ← face.checkField channel e.1 e.2 with
    | some value => pure (writes.insert e.1 value)
    | none => pure writes) ∅

/-- `SetMany`. An empty map stores nothing. -/
def setMany (o : Write) (channel : String) (writes : GoMap String) (world : World) : Except Err Unit × World :=
  let stored := { world with settings := put world.settings channel writes }
  if writes.entries = [] then (.ok (), world)
  else match o with
    | .done => (.ok (), stored)
    | .noKey => (.error .errNoKey, world)
    | .failed => (.error .other, world)
    | .lost => (.error .other, stored)

def saveError (err : Err) : Err :=
  if err = .errNoKey then
    .api (unavailable "PLOYKIT_SEAL_KEY 未配置，无法保存凭据：请配置该环境变量并重启后重试（明文凭据一律不入库）")
  else .saveChannelFields err

namespace Wiring

variable (w : Wiring)

/-! ## The registry -/

/-- The channels with what they show. -/
def shownChannels (channels : List (String × Channel)) : Go Channels :=
  channels.foldlM (fun (shown : Channels) e => do return shown.insert e.1 (← e.2.shown w)) ∅

def orderedNames (channels : List (String × Channel)) : Go (List String) := do
  return orderedNamesOf (← w.shownChannels channels)

def rebuild (fields : Fields) (world : World) : Go World := do
  let channels := w.build fields
  let names ← w.orderedNames channels
  return { world with channels, names, built := fields }

/-- `RefreshNow`. The set stays when the fields cannot be read. -/
def refreshNow (read : Bool) (world : World) : Go World := if read then w.rebuild world.settings world else .ok world

/-- `NewAtomicRegistry`. The channels are built without fields when these cannot be read. -/
def newAtomicRegistry (settings : Fields) (read : Bool) : Go World :=
  w.rebuild (if read then settings else ∅) { settings, channels := [], names := [], built := ∅ }

/-! ## Views -/

def channelFields (read : Bool) (world : World) : Except Err Fields :=
  if ¬ w.hasChannelSettings then .ok ∅ else if read then .ok world.settings else .error .other

def channelCard (ch : Channel) (dbFields : GoMap String) : Go ChannelCard := do
  return (← ch.shown w).card dbFields

def channelCards (read : Bool) (world : World) : Go (Except Err (List ChannelCard)) :=
  match w.channelFields read world with
  | .error err => .ok (.error err)
  | .ok fields => do
    let chs ← w.shownChannels world.channels
    return .ok ((sortedChannelEntries chs).map fun e => e.2.card (fieldsOf fields e.2.name))

end Wiring

namespace World

variable (world : World)

/-- The view of an active channel. -/
def configView (name : String) : Go ChannelConfigView := do
  let info ← match world.get name with
    | some ch => ch.channelConfig
    | none => pure none
  let info := info.getD { configured := true, keyMasked := "", webhookConfigured := false }
  let keyMasked := if info.keyMasked ≠ "" then info.keyMasked else keyMaskUnavailable
  return { name, configured := info.configured, webhookConfigured := info.webhookConfigured
           keyMasked := if ¬ info.configured then keyNotConfigured else keyMasked }

def billingConfig : Go (List ChannelConfigView) := do
  let channels ← world.names.mapM (world.configView)
  return channels ++ (knownChannelNames.filter fun name => name ∉ world.names).map fun name =>
    { name, configured := false, keyMasked := keyNotConfigured }

end World

namespace Wiring

variable (w : Wiring)

/-! ## Saving fields -/

/-- The refresh after a save. Its error is logged. -/
def refreshSaved (read : Bool) (world : World) : Go World :=
  if w.hasRefresher then w.refreshNow read world else .ok world

/-- A save is answered: the set is refreshed, and the card is that of the channel that is there then. -/
def answerSave (channel : String) (ch : Channel) (o : Outcomes) (world : World) : World × Go (Except Err ChannelCard) :=
  match w.refreshSaved o.refresh world with
  | .error p => (world, .error p)
  | .ok world => match w.channelFields o.readBack world with
    | .error err => (world, .ok (.error err))
    | .ok all => (world, (w.channelCard ((world.get channel).getD ch) (fieldsOf all channel)).map .ok)

def updateChannelFields (channel : String) (fields : GoMap String) (o : Outcomes) (world : World) :
    World × Go (Except Err ChannelCard) :=
  if ¬ w.hasChannelSettings then
    (world, .ok (.error (.api (unavailable "渠道设置存储未接线（channel settings store not wired）"))))
  else match world.get channel with
    | none => (world, .ok (.error (.api (newNotFound ("unknown payment channel: " ++ channel)))))
    -- each of the channels has a `ConfigSchema`
    | some ch => match collect (ch.face w) channel fields with
      | .error e => (world, .ok (.error (.api e)))
      | .ok writes => match setMany o.write channel writes world with
        | (.error err, world) => (world, .ok (.error (saveError err)))
        | (.ok (), world) => w.answerSave channel ch o world

end Wiring

/-! ## Runs -/

/-- A request, a tick of the poll, or what other processes save. -/
inductive Step where
  | update (channel : String) (fields : GoMap String) (o : Outcomes)
  | poll (read : Bool)
  | elsewhere (settings : Fields)

namespace Wiring

variable (w : Wiring)

def exec (world : World) : Step → World × Go Unit
  | .update channel fields o =>
    let (world', reply) := w.updateChannelFields channel fields o world
    (world', reply.map fun _ => ())
  | .poll read => match w.refreshNow read world with
    | .ok world' => (world', .ok ())
    | .error p => (world, .error p)
  | .elsewhere settings => ({ world with settings }, .ok ())

/-! ### Without accidents -/

/-- The factories build no channel from the fields with an id of one or two bytes. -/
def Presentable (fields : Fields) : Prop := ∀ e ∈ w.build fields, e.2.Maskable

instance (fields : Fields) : Decidable (w.Presentable fields) := inferInstanceAs (Decidable (∀ e ∈ _, _))

end Wiring

/-- What a submitted field asks to be stored. A blank secret and the placeholder ask for nothing. -/
def asks (face : PaymentChannel) (key raw : String) : Option String :=
  let value := Strings.trimSpace raw
  if (face.spec key).any (fun spec => spec.type = .secret) ∧ (value = "" ∨ value = channelSecretSetMarker) then none
  else some value

def submit (face : PaymentChannel) (writes : GoMap String) (e : Sigma fun _ : String => String) : GoMap String :=
  match asks face e.1 e.2 with
  | some value => writes.insert e.1 value
  | none => writes

/-- What all submitted fields ask for. -/
def submitted (face : PaymentChannel) (fields : GoMap String) : GoMap String := fields.entries.foldl (submit face) ∅

/-- All submitted fields pass their checks. -/
def Accepts (face : PaymentChannel) (channel : String) (fields : GoMap String) : Prop :=
  ∀ e ∈ fields.entries, ∃ r, face.checkField channel e.1 e.2 = .ok r

/-- A submitted value is not the one that is stored. -/
def Changes (face : PaymentChannel) (settings : Fields) (channel : String) (fields : GoMap String) : Prop :=
  ∃ e ∈ (submitted face fields).entries, field settings channel e.1 ≠ some e.2

/-- A save that is accepted and changes a field leaves no id of one or two bytes to a channel that can be built; it has
not been committed when it fails, and the fields can be read after it. -/
def Wiring.Careful (w : Wiring) (world : World) : Step → Prop
  | .update channel fields o => w.hasChannelSettings → ∀ ch, world.get channel = some ch →
      Accepts (ch.face w) channel fields → Changes (ch.face w) world.settings channel fields →
        o.write ≠ .lost ∧
          (o.write = .done → o.readBack ∧ w.Presentable (put world.settings channel (submitted (ch.face w) fields)))
  | .poll _ => True
  | .elsewhere settings => w.Presentable settings

/-- The worlds of the runs whose steps meet the condition and do not panic. -/
inductive Reaches (w : Wiring) (ok : World → Step → Prop) : World → Prop
  | boot {settings : Fields} {read : Bool} {world : World} (hsettings : w.Presentable settings)
      (hfallback : read = false → w.Presentable ∅) (h : w.newAtomicRegistry settings read = .ok world) : Reaches w ok world
  | step {s : Step} {world world' : World} (hworld : Reaches w ok world) (hok : ok world s)
      (h : w.exec world s = (world', .ok ())) : Reaches w ok world'

end Ploykit.Billing.Adapters

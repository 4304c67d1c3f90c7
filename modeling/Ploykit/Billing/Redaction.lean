import Ploykit.Billing.ChannelSettings
import Ploykit.Billing.Money

/-!
# Redaction

Settings that differ in their secrets only, and whose secrets are told alike, make channels that
show the same. What is told of a secret is whether it is set, whether waffo's keys can be
parsed, and the mask of it where a channel has one. A mask leaves other secrets possible.
-/

namespace Ploykit.Billing.Adapters

open Registry

/-! ## Secrets -/

def schemas : List (String × List FieldSpec) :=
  [("stripe", Stripe.schema), ("waffo", Waffo.schema), ("paypal", Paypal.schema), ("manual", Channel.manual.configSchema),
   ("simwaffo", Sim.schema), ("simpaypal", Sim.schema), ("simstripe", Sim.schema)]

def schemaOf (channel : String) : List FieldSpec := (schemas.lookup channel).getD []

def isSecret (channel key : String) : Bool := (schemaOf channel).any fun spec => spec.key = key ∧ spec.type = .secret

/-- What can be told of a secret. -/
structure Told where
  empty : Bool
  blank : Bool
  mask : Go GoString
  parses : Bool
  deriving DecidableEq

/-- The mask that a channel shows of a secret. -/
def secretMask (channel key v : String) : Go GoString :=
  if channel = "stripe" ∧ key = "secret_key" then maskKey (bytes v)
  else if key = "secret" then maskSecret (bytes (Strings.trimSpace v))
  else .ok []

/-- A field as a reader sees it. -/
inductive Seen where
  | text (v : String)
  | secret (t : Told)
  deriving DecidableEq

namespace Wiring

variable (w : Wiring)

/-- Waffo's keys are of use when they can be parsed. -/
def parses (channel key v : String) : Bool :=
  if channel = "waffo" ∧ key = "private_key" then (w.parsePrivateKey v).isOk
  else if channel = "waffo" ∧ key = "webhook_public_key" then (w.parsePublicKey (Strings.trimSpace v)).isOk
  else true

def told (channel key v : String) : Told where
  empty := v = ""
  blank := Strings.trimSpace v = ""
  mask := secretMask channel key v
  parses := w.parses channel key v

def seen (channel key v : String) : Seen := if isSecret channel key then .secret (w.told channel key v) else .text v

/-- A reader sees the same of both. -/
def Alike (f f' : Fields) : Prop :=
  ∀ channel key, (field f channel key).map (w.seen channel key) = (field f' channel key).map (w.seen channel key)

end Wiring

variable {w : Wiring} {f f' f'' : Fields} {channel key v v' : String}

namespace Wiring.Alike

theorem of_field_eq (h : ∀ channel key, field f channel key = field f' channel key) : w.Alike f f' :=
  fun channel key => congrArg (Option.map _) (h channel key)

theorem text (h : w.Alike f f') (hkey : isSecret channel key = false) : field f channel key = field f' channel key := by
  have hseen : ∀ v, w.seen channel key v = .text v := fun v => if_neg (by simp [hkey])
  refine Option.map_injective (f := w.seen channel key) (fun v v' hv => ?_) (h channel key)
  rw [hseen, hseen] at hv
  injection hv

theorem secret (h : w.Alike f f') (hkey : isSecret channel key) : (field f channel key = none ∧ field f' channel key = none) ∨
    ∃ v v', field f channel key = some v ∧ field f' channel key = some v' ∧ w.told channel key v = w.told channel key v' := by
  have hseen : ∀ v, w.seen channel key v = .secret (w.told channel key v) := fun v => if_pos hkey
  have heq := h channel key
  cases hv : field f channel key with
  | none =>
    rw [hv] at heq
    exact .inl ⟨rfl, Option.map_eq_none_iff.1 heq.symm⟩
  | some v =>
    rw [hv] at heq
    obtain ⟨v', hv', hsame⟩ := Option.map_eq_some_iff.1 heq.symm
    rw [hseen, hseen] at hsame
    injection hsame with hsame
    exact .inr ⟨v, v', rfl, hv', hsame.symm⟩

/-- The same fields are set. -/
theorem isSome (h : w.Alike f f') (channel key : String) : (field f channel key).isSome = (field f' channel key).isSome := by
  have hmap := congrArg Option.isSome (h channel key)
  rwa [Option.isSome_map, Option.isSome_map] at hmap

end Wiring.Alike

/-! ### Masks leave others possible -/

theorem bytes_append (s t : String) : bytes (s ++ t) = bytes s ++ bytes t := by
  rw [bytes, String.toList_append, List.flatMap_append]
  rfl

theorem trimSpace_trimSpace (s : String) : Strings.trimSpace (Strings.trimSpace s) = Strings.trimSpace s := by
  have htrim := Money.trimSpace_ofList (Money.trimmed_trimSpace s)
  rw [String.ofList_toList] at htrim
  exact String.toList_inj.1 htrim

theorem trimSpace_append_self {s : String} (h : Strings.trimSpace s = s) : Strings.trimSpace (s ++ s) = s ++ s := by
  have hs : Text.Trimmed Strings.isSpace s.toList := h ▸ Money.trimmed_trimSpace s
  have hss : Text.Trimmed Strings.isSpace (s.toList ++ s.toList) := by
    constructor
    · intro c hc
      refine hs.1 c ?_
      rw [List.head?_append] at hc
      cases hhead : s.toList.head? with
      | none => rw [hhead] at hc; exact hc
      | some d => rw [hhead] at hc; exact hc
    · intro c hc
      refine hs.2 c ?_
      rw [List.getLast?_append] at hc
      cases hlast : s.toList.getLast? with
      | none => rw [hlast] at hc; exact hc
      | some d => rw [hlast] at hc; exact hc
  have htrim := Money.trimSpace_ofList hss
  rw [← String.toList_append, String.ofList_toList] at htrim
  exact String.toList_inj.1 htrim

theorem append_self_ne {s : String} (h : s ≠ "") : s ++ s ≠ s := by
  intro hself
  have hlength := congrArg (List.length ∘ String.toList) hself
  simp only [Function.comp_apply, String.toList_append, List.length_append] at hlength
  have hpos : 0 < s.toList.length := List.length_pos_of_ne_nil fun hnil => h (String.toList_eq_nil_iff.1 hnil)
  omega

/-- Some short value is another one. -/
theorem exists_short_ne (v : String) : ∃ v', v' ≠ v ∧ v' ≠ "" ∧ Strings.trimSpace v' = v' ∧ (bytes v').length = 1 := by
  by_cases hv : v = "a"
  · exact ⟨"b", by rw [hv]; decide, by decide, by decide, by decide⟩
  · exact ⟨"a", Ne.symm hv, by decide, by decide, by decide⟩

theorem bytes_ne_nil (h : v ≠ "") : bytes v ≠ [] := by
  intro hnil
  rw [bytes, List.flatMap_eq_nil_iff] at hnil
  refine h (String.toList_eq_nil_iff.1 (List.eq_nil_iff_forall_not_mem.2 fun c hc => ?_))
  exact String.utf8EncodeChar_ne_nil (hnil c hc)

/-- The mask of a secret that may be stored is also that of another one. -/
theorem secretMask_ambiguous (channel key : String) (hne : v ≠ "") (htrim : Strings.trimSpace v = v) :
    ∃ v', v' ≠ v ∧ v' ≠ "" ∧ Strings.trimSpace v' = v' ∧ secretMask channel key v' = secretMask channel key v := by
  obtain ⟨short, hshort, hshort', hshort_trim, hlength⟩ := exists_short_ne v
  have hdouble : v ++ v ≠ "" := fun h => hne (by simpa using h)
  have htwice := trimSpace_append_self htrim
  unfold secretMask
  split
  · rcases Nat.lt_or_ge 12 (bytes v).length with hlen | hlen
    · refine ⟨v ++ v, append_self_ne hne, hdouble, htwice, ?_⟩
      rw [bytes_append, maskKey_long hlen, maskKey_long (by rw [List.length_append]; omega)]
      exact congrArg _ (masked_append_self (by omega) (by omega))
    · refine ⟨short, hshort, hshort', hshort_trim, ?_⟩
      rw [maskKey_short (bytes_ne_nil hne) hlen, maskKey_short (bytes_ne_nil hshort') (by omega)]
  · split
    · rw [htrim]
      rcases Nat.lt_or_ge 8 (bytes v).length with hlen | hlen
      · refine ⟨v ++ v, append_self_ne hne, hdouble, htwice, ?_⟩
        rw [htwice, bytes_append, maskSecret_long hlen, maskSecret_long (by rw [List.length_append]; omega)]
        exact congrArg _ (masked_append_self (by omega) (by omega))
      · refine ⟨short, hshort, hshort', hshort_trim, ?_⟩
        rw [hshort_trim, maskSecret_short hlen, maskSecret_short (by omega)]
    · exact ⟨v ++ v, append_self_ne hne, hdouble, htwice, rfl⟩

/-! ## Channels that are built alike -/

/-- What is shown of the outcome of a factory. -/
def shownOf (w : Wiring) : Except String Channel → Option (String × Go PaymentChannel)
  | .ok ch => some (ch.name, ch.shown w)
  | .error _ => none

/-- The value that is used in the end is told alike too. -/
theorem lookup_alike (h : w.Alike f f') (envOfField : List (String × String)) (hkey : isSecret channel key) :
    w.told channel key (w.lookup envOfField (Wiring.fieldsOf f channel) key) =
      w.told channel key (w.lookup envOfField (Wiring.fieldsOf f' channel) key) := by
  have hlookup : ∀ f : Fields, (Wiring.fieldsOf f channel).lookup key = field f channel key := fun _ => rfl
  unfold Wiring.lookup
  rw [hlookup, hlookup]
  obtain ⟨hnone, hnone'⟩ | ⟨v, v', hv, hv', htold⟩ := h.secret hkey
  · rw [hnone, hnone']
  · have hblank : decide (Strings.trimSpace v = "") = decide (Strings.trimSpace v' = "") := congrArg Told.blank htold
    rw [decide_eq_decide] at hblank
    rw [hv, hv']
    by_cases hb : Strings.trimSpace v = ""
    · simp only [hb, hblank.1 hb, ne_eq, not_true_eq_false, if_false]
    · simp only [hb, mt hblank.2 hb, ne_eq, not_false_eq_true, if_true, htold]

theorem lookup_text (h : w.Alike f f') (envOfField : List (String × String)) (hkey : isSecret channel key = false) :
    w.lookup envOfField (Wiring.fieldsOf f channel) key = w.lookup envOfField (Wiring.fieldsOf f' channel) key := by
  have hfield : (Wiring.fieldsOf f channel).lookup key = (Wiring.fieldsOf f' channel).lookup key := h.text hkey
  unfold Wiring.lookup
  rw [hfield]

section told

variable (h : w.told channel key v = w.told channel key v')

include h

theorem empty_iff_of_told : v = "" ↔ v' = "" := decide_eq_decide.1 (congrArg Told.empty h)

theorem blank_iff_of_told : Strings.trimSpace v = "" ↔ Strings.trimSpace v' = "" := decide_eq_decide.1 (congrArg Told.blank h)

theorem mask_of_told : secretMask channel key v = secretMask channel key v' := congrArg Told.mask h

theorem parses_of_told : w.parses channel key v = w.parses channel key v' := congrArg Told.parses h

end told

theorem get_alike (h : w.Alike f f') (envName : String) (hkey : isSecret "stripe" key) :
    w.told "stripe" key (Stripe.get w (Wiring.fieldsOf f "stripe") key envName) =
      w.told "stripe" key (Stripe.get w (Wiring.fieldsOf f' "stripe") key envName) := by
  have hlookup : ∀ f : Fields, (Wiring.fieldsOf f "stripe").lookup key = field f "stripe" key := fun _ => rfl
  unfold Stripe.get
  rw [hlookup, hlookup]
  obtain ⟨hnone, hnone'⟩ | ⟨v, v', hv, hv', htold⟩ := h.secret hkey
  · rw [hnone, hnone']
  · have hempty := empty_iff_of_told htold
    rw [hv, hv']
    by_cases hb : v = ""
    · simp only [hb, hempty.1 hb, Option.getD_some, ne_eq, not_true_eq_false, if_false]
    · simp only [hb, mt hempty.2 hb, Option.getD_some, ne_eq, not_false_eq_true, if_true, htold]

theorem stripe_alike (h : w.Alike f f') :
    shownOf w (Stripe.factory w (Wiring.fieldsOf f "stripe")) = shownOf w (Stripe.factory w (Wiring.fieldsOf f' "stripe")) := by
  have hk := get_alike h "STRIPE_SECRET_KEY" (show isSecret "stripe" "secret_key" by decide)
  have hs := get_alike h "STRIPE_WEBHOOK_SIGNING_KEY" (show isSecret "stripe" "webhook_signing_key" by decide)
  unfold Stripe.factory
  generalize Stripe.get w (Wiring.fieldsOf f "stripe") "secret_key" _ = k at hk
  generalize Stripe.get w (Wiring.fieldsOf f' "stripe") "secret_key" _ = k' at hk
  generalize Stripe.get w (Wiring.fieldsOf f "stripe") "webhook_signing_key" _ = s at hs
  generalize Stripe.get w (Wiring.fieldsOf f' "stripe") "webhook_signing_key" _ = s' at hs
  have hempty := empty_iff_of_told hk
  have hmask : maskKey (bytes k) = maskKey (bytes k') := mask_of_told hk
  by_cases hne : k = ""
  · simp only [hne, hempty.1 hne, ne_eq, not_true_eq_false, if_false]
  · simp only [hne, mt hempty.2 hne, ne_eq, not_false_eq_true, if_true, shownOf, Channel.name, Channel.shown,
      Channel.channelConfig, hmask, empty_iff_of_told hs]
    rfl

theorem missing_congr (name name' id : String) (h : Strings.trimSpace v = "" ↔ Strings.trimSpace v' = "") :
    missing [(name, id), (name', v)] = missing [(name, id), (name', v')] := by
  have hlast : missing [(name', v)] = missing [(name', v')] := by
    by_cases hv : Strings.trimSpace v = ""
    · simp [missing, hv, h.1 hv]
    · simp [missing, hv, mt h.2 hv]
  have hcons : ∀ l, missing ((name, id) :: l) = missing [(name, id)] ++ missing l := by
    intro l
    rw [missing, List.singleton_append.symm, List.filter_append, List.map_append]
    rfl
  rw [hcons, hlast, ← hcons]

theorem paypal_alike (h : w.Alike f f') :
    shownOf w (Paypal.newFromFields w (Wiring.fieldsOf f "paypal")) =
      shownOf w (Paypal.newFromFields w (Wiring.fieldsOf f' "paypal")) := by
  have hid := lookup_text h Paypal.envOfField (show isSecret "paypal" "client_id" = false by decide)
  have hhook := lookup_text h Paypal.envOfField (show isSecret "paypal" "webhook_id" = false by decide)
  have hsecret := lookup_alike h Paypal.envOfField (show isSecret "paypal" "client_secret" by decide)
  simp only [Paypal.newFromFields, hid, hhook]
  generalize w.lookup Paypal.envOfField (Wiring.fieldsOf f "paypal") "client_secret" = s at hsecret
  generalize w.lookup Paypal.envOfField (Wiring.fieldsOf f' "paypal") "client_secret" = s' at hsecret
  have hblank := blank_iff_of_told hsecret
  have hempty := empty_iff_of_told hsecret
  rw [missing_congr _ _ _ hblank]
  generalize missing _ = names
  split
  · rfl
  · split
    · rfl
    · unfold Paypal.new
      by_cases hid : Strings.trimSpace (w.lookup Paypal.envOfField (Wiring.fieldsOf f' "paypal") "client_id") = ""
      · rw [if_pos hid, if_pos hid]
      · rw [if_neg hid, if_neg hid]
        by_cases hs : Strings.trimSpace s = ""
        · rw [if_pos hs, if_pos (hblank.1 hs)]
        · rw [if_neg hs, if_neg (mt hblank.2 hs)]
          simp only [shownOf, Channel.name, Channel.shown, Channel.channelConfig, ne_eq, hempty]
          rfl

/-- Of an outcome it counts whether it is one. -/
theorem bind_unit_alike {r r' : Except String Unit} {k k' : Except String Channel} (h : r.isOk = r'.isOk)
    (hk : shownOf w k = shownOf w k') : shownOf w (r >>= fun _ => k) = shownOf w (r' >>= fun _ => k') := by
  cases r with
  | error e =>
    cases r' with
    | error e' => rfl
    | ok u => cases h
  | ok u =>
    cases r' with
    | error e' => cases h
    | ok u' => exact hk

theorem waffo_alike (h : w.Alike f f') :
    shownOf w (Waffo.newFromFields w (Wiring.fieldsOf f "waffo")) = shownOf w (Waffo.newFromFields w (Wiring.fieldsOf f' "waffo")) := by
  have hid := lookup_text h Waffo.envOfField (show isSecret "waffo" "merchant_id" = false by decide)
  have htax : (Wiring.fieldsOf f "waffo").lookup "tax_included" = (Wiring.fieldsOf f' "waffo").lookup "tax_included" :=
    h.text (show isSecret "waffo" "tax_included" = false by decide)
  have hprivate := lookup_alike h Waffo.envOfField (show isSecret "waffo" "private_key" by decide)
  have hpublic := lookup_alike h Waffo.envOfField (show isSecret "waffo" "webhook_public_key" by decide)
  simp only [Waffo.newFromFields, hid, htax]
  generalize w.lookup Waffo.envOfField (Wiring.fieldsOf f "waffo") "private_key" = s at hprivate
  generalize w.lookup Waffo.envOfField (Wiring.fieldsOf f' "waffo") "private_key" = s' at hprivate
  generalize w.lookup Waffo.envOfField (Wiring.fieldsOf f "waffo") "webhook_public_key" = p at hpublic
  generalize w.lookup Waffo.envOfField (Wiring.fieldsOf f' "waffo") "webhook_public_key" = p' at hpublic
  have hblank := blank_iff_of_told hprivate
  have hparses : (w.parsePrivateKey s).isOk = (w.parsePrivateKey s').isOk := parses_of_told hprivate
  have hpub := blank_iff_of_told hpublic
  have hpubparses : (w.parsePublicKey (Strings.trimSpace p)).isOk = (w.parsePublicKey (Strings.trimSpace p')).isOk :=
    parses_of_told hpublic
  rw [missing_congr _ _ _ hblank]
  generalize missing _ = names
  split
  · rfl
  · split
    · rfl
    · refine bind_unit_alike rfl (bind_unit_alike rfl ?_)
      unfold Waffo.new
      by_cases hid : Strings.trimSpace (w.lookup Waffo.envOfField (Wiring.fieldsOf f' "waffo") "merchant_id") = ""
      · rw [if_pos hid, if_pos hid]
      · rw [if_neg hid, if_neg hid]
        refine bind_unit_alike hparses ?_
        by_cases hp : Strings.trimSpace p = ""
        · simp only [hp, hpub.1 hp, ne_eq, not_true_eq_false, if_false]
        · simp only [hp, mt hpub.2 hp, ne_eq, not_false_eq_true, if_true]
          exact bind_unit_alike hpubparses rfl

theorem sim_alike (h : w.Alike f f') (d : Dialect) :
    shownOf w (Sim.factory w d (Wiring.fieldsOf f d.name)) = shownOf w (Sim.factory w d (Wiring.fieldsOf f' d.name)) := by
  have hkey : isSecret d.name "secret" := by cases d <;> decide
  have hlookup : ∀ f : Fields, (Wiring.fieldsOf f d.name).lookup "secret" = field f d.name "secret" := fun _ => rfl
  have hmaskOf : ∀ v, secretMask d.name "secret" v = maskSecret (bytes (Strings.trimSpace v)) := by
    intro v
    rw [secretMask, if_neg (by cases d <;> decide), if_pos rfl]
  simp only [Sim.factory, Sim.resolveSecret, hlookup]
  obtain ⟨hnone, hnone'⟩ | ⟨v, v', hv, hv', htold⟩ := h.secret hkey
  · rw [hnone, hnone']
  · have hblank := blank_iff_of_told htold
    have hmask := mask_of_told htold
    rw [hmaskOf, hmaskOf] at hmask
    rw [hv, hv']
    by_cases hb : Strings.trimSpace v = ""
    · simp only [Option.getD_some, hb, hblank.1 hb, ne_eq, not_true_eq_false, if_false]
    · simp only [Option.getD_some, hb, mt hblank.2 hb, ne_eq, not_false_eq_true, if_true, Sim.new, trimSpace_trimSpace, if_false,
        shownOf, Channel.name, Channel.shown, Channel.channelConfig, hmask]
      rfl

/-! ### All of them -/

theorem factory_alike (h : w.Alike f f') : ∀ e ∈ w.factories,
    shownOf w (e.2 (Wiring.fieldsOf f e.1)) = shownOf w (e.2 (Wiring.fieldsOf f' e.1)) := by
  unfold Wiring.factories
  rw [List.forall_mem_append]
  constructor
  · rw [List.forall_mem_cons, List.forall_mem_cons, List.forall_mem_cons, List.forall_mem_singleton]
    dsimp only
    exact ⟨stripe_alike h, waffo_alike h, paypal_alike h, rfl⟩
  · split
    · rw [List.forall_mem_map]
      dsimp only
      exact fun d _ => sim_alike h d
    · exact List.forall_mem_nil _

def shownEntries (w : Wiring) (channels : List (String × Channel)) : List (String × Go PaymentChannel) :=
  channels.map fun e => (e.1, e.2.shown w)

theorem build_alike (h : w.Alike f f') : shownEntries w (w.build f) = shownEntries w (w.build f') := by
  have hentry : ∀ (name : String) (r : Except String Channel),
      (Wiring.registered name r).map (fun e => (e.1, e.2.shown w)) =
        (shownOf w r).bind fun s => if s.1 = name then some (name, s.2) else none := by
    intro name r
    cases r with
    | error e => rfl
    | ok ch =>
      simp only [Wiring.registered, shownOf, Option.bind_some]
      split <;> rfl
  unfold shownEntries Wiring.build
  rw [List.map_filterMap, List.map_filterMap]
  refine List.filterMap_congr fun e he => ?_
  rw [hentry, hentry, factory_alike h e he]

/-! ### Their schemas -/

theorem ok_of_bind {ε α β : Type} {x : Except ε α} {k : α → Except ε β} {r : β} (h : x >>= k = .ok r) : ∃ a, x = .ok a ∧ k a = .ok r := by
  cases x with
  | error e => cases h
  | ok a => exact ⟨a, rfl, h⟩

theorem paypal_schema {m : GoMap String} {ch : Channel} (h : Paypal.newFromFields w m = .ok ch) : ch.configSchema = Paypal.schema := by
  unfold Paypal.newFromFields Paypal.new at h
  dsimp only at h
  split at h
  · injection h with h
    exact h ▸ rfl
  · split at h
    · split at h
      · cases h
      · injection h with h
        exact h ▸ rfl
    · split at h
      · cases h
      · split at h
        · cases h
        · injection h with h
          exact h ▸ rfl

theorem waffo_schema {m : GoMap String} {ch : Channel} (h : Waffo.newFromFields w m = .ok ch) : ch.configSchema = Waffo.schema := by
  unfold Waffo.newFromFields at h
  dsimp only at h
  split at h
  · injection h with h
    exact h ▸ rfl
  · split at h
    · split at h
      · cases h
      · injection h with h
        exact h ▸ rfl
    · obtain ⟨-, -, h⟩ := ok_of_bind h
      obtain ⟨-, -, h⟩ := ok_of_bind h
      unfold Waffo.new at h
      split at h
      · cases h
      · obtain ⟨-, -, h⟩ := ok_of_bind h
        dsimp only at h
        split at h
        · obtain ⟨-, -, h⟩ := ok_of_bind h
          injection h with h
          exact h ▸ rfl
        · injection h with h
          exact h ▸ rfl

theorem stripe_schema {m : GoMap String} {ch : Channel} (h : Stripe.factory w m = .ok ch) : ch.configSchema = Stripe.schema := by
  unfold Stripe.factory at h
  dsimp only at h
  split at h
  · injection h with h
    exact h ▸ rfl
  · injection h with h
    exact h ▸ rfl

theorem factory_schema : ∀ e ∈ w.factories, ∀ m ch, e.2 m = .ok ch → ch.configSchema = schemaOf e.1 := by
  unfold Wiring.factories
  rw [List.forall_mem_append]
  constructor
  · rw [List.forall_mem_cons, List.forall_mem_cons, List.forall_mem_cons, List.forall_mem_singleton]
    dsimp only
    refine ⟨fun m ch h => stripe_schema h, fun m ch h => waffo_schema h, fun m ch h => paypal_schema h, fun m ch h => ?_⟩
    injection h with h
    exact h ▸ rfl
  · split
    · rw [List.forall_mem_map]
      dsimp only
      intro d _ m ch h
      injection h with h
      rw [← h]
      cases d <;> rfl
    · exact List.forall_mem_nil _

/-- A channel is registered under its name, with the schema of the name. -/
theorem build_schema {n : String} {ch : Channel} (h : (n, ch) ∈ w.build f) : ch.name = n ∧ ch.configSchema = schemaOf n := by
  obtain ⟨e, he, hreg⟩ := List.mem_filterMap.1 h
  cases hr : e.2 (Wiring.fieldsOf f e.1) with
  | error err =>
    rw [hr] at hreg
    cases hreg
  | ok ch' =>
    rw [hr, Wiring.registered] at hreg
    split at hreg
    · rename_i hname
      injection hreg with hreg
      injection hreg with hn hch
      subst hn
      subst hch
      exact ⟨hname, factory_schema e he _ _ hr⟩
    · cases hreg

/-! ## Views -/

theorem isSecret_iff {spec : FieldSpec} (h : spec ∈ schemaOf channel) : isSecret channel spec.key ↔ spec.type = .secret := by
  have hkeys : ∀ e ∈ schemas, e.2.all fun spec =>
      (e.2.any fun other => other.key = spec.key ∧ other.type = .secret) = decide (spec.type = .secret) := by decide
  unfold isSecret
  unfold schemaOf at h ⊢
  cases hlookup : schemas.lookup channel with
  | none =>
    rw [hlookup] at h
    cases h
  | some schema =>
    rw [hlookup] at h
    obtain ⟨before, after, hschemas, -⟩ := List.lookup_eq_some_iff.1 hlookup
    have hmem : (channel, schema) ∈ schemas := by simp [hschemas]
    have hall := hkeys (channel, schema) hmem
    have hspec := of_decide_eq_true (List.all_eq_true.1 hall spec h)
    rw [Option.getD_some, hspec, decide_eq_true_iff]

/-- What a card shows of a stored value. -/
theorem shown_alike (h : w.Alike f f') {spec : FieldSpec} (hspec : spec ∈ schemaOf channel) :
    spec.shown (Wiring.fieldsOf f channel) = spec.shown (Wiring.fieldsOf f' channel) := by
  have hlookup : ∀ f : Fields, (Wiring.fieldsOf f channel).lookup spec.key = field f channel spec.key := fun _ => rfl
  unfold FieldSpec.shown
  rw [hlookup, hlookup]
  by_cases hsecret : spec.type = .secret
  · obtain ⟨hnone, hnone'⟩ | ⟨v, v', hv, hv', htold⟩ := h.secret ((isSecret_iff hspec).2 hsecret)
    · rw [hnone, hnone']
    · have hempty := empty_iff_of_told htold
      rw [hv, hv']
      by_cases hb : v = ""
      · simp only [hb, hempty.1 hb, ne_eq, not_true_eq_false, and_false, if_false]
      · simp only [hsecret, hb, mt hempty.2 hb, ne_eq, not_false_eq_true, and_self, if_true]
  · rw [h.text (Bool.eq_false_iff.2 (mt (isSecret_iff hspec).1 hsecret))]

theorem entries_eq_nil_iff {α : Type} {m : GoMap α} : m.entries = [] ↔ ∀ key, (m.lookup key).isSome = false := by
  constructor
  · intro hnil key
    rw [AList.lookup, hnil]
    rfl
  · intro h
    refine List.eq_nil_iff_forall_not_mem.2 fun e he => ?_
    have hmem : m.lookup e.1 = some e.2 := AList.mem_lookup_iff.2 he
    have hnone := h e.1
    rw [hmem] at hnone
    cases hnone

theorem card_alike (h : w.Alike f f') {face : PaymentChannel} (hschema : face.configSchema = some (schemaOf channel)) :
    face.card (Wiring.fieldsOf f channel) = face.card (Wiring.fieldsOf f' channel) := by
  have hentries : (Wiring.fieldsOf f channel).entries = [] ↔ (Wiring.fieldsOf f' channel).entries = [] := by
    rw [entries_eq_nil_iff, entries_eq_nil_iff]
    exact forall_congr' fun key => Eq.congr_left (h.isSome channel key)
  have hvalues : (schemaOf channel).foldl (fun values spec => values.insert spec.key (spec.shown (Wiring.fieldsOf f channel))) ∅ =
      (schemaOf channel).foldl (fun (values : GoMap String) spec =>
        values.insert spec.key (spec.shown (Wiring.fieldsOf f' channel))) ∅ :=
    List.foldl_ext _ _ _ fun values spec hspec => by rw [shown_alike h hspec]
  simp only [PaymentChannel.card, hschema, Option.getD_some, hvalues, ne_eq, hentries]

/-! ### The registered channels -/

theorem lookup_map {α β : Type} (g : α → β) (l : List (String × α)) (k : String) :
    (l.map fun e => (e.1, g e.2)).lookup k = (l.lookup k).map g := by
  induction l with
  | nil => rfl
  | cons e l ih =>
    rw [List.map_cons, List.lookup_cons, List.lookup_cons]
    split
    · rfl
    · exact ih

/-- Only what is shown counts. -/
theorem shownChannels_eq (channels : List (String × Channel)) : w.shownChannels channels =
    (shownEntries w channels).foldlM (fun (shown : Channels) e => do return shown.insert e.1 (← e.2)) ∅ := by
  rw [shownEntries, List.foldlM_map]
  rfl

theorem foldlM_shown {entries : List (String × Go PaymentChannel)} {acc shown : Channels}
    (h : entries.foldlM (fun (shown : Channels) e => do return shown.insert e.1 (← e.2)) acc = .ok shown) :
    ∀ e ∈ shown.entries, e ∈ acc.entries ∨ (e.1, Except.ok e.2) ∈ entries := by
  induction entries generalizing acc with
  | nil =>
    injection h with h
    subst h
    exact fun e he => .inl he
  | cons entry entries ih =>
    obtain ⟨name, outcome⟩ := entry
    rw [List.foldlM_cons] at h
    obtain ⟨acc', hacc', hrest⟩ := ok_of_bind h
    obtain ⟨face, rfl, hface⟩ := ok_of_bind hacc'
    injection hface with hface
    subst hface
    intro e he
    rcases ih hrest e he with he | he
    · rw [AList.entries_insert, List.mem_cons] at he
      rcases he with rfl | he
      · exact .inr List.mem_cons_self
      · exact .inl ((List.kerase_sublist _ _).subset he)
    · exact .inr (List.mem_cons_of_mem _ he)

/-- A shown channel is one of those that have been built. -/
theorem shownChannels_built {shown : Channels} (h : w.shownChannels (w.build f) = .ok shown) {e : Sigma fun _ : String => PaymentChannel}
    (he : e ∈ shown.entries) : e.2.configSchema = some (schemaOf e.2.name) := by
  rw [shownChannels_eq] at h
  obtain hnone | hmem := foldlM_shown h e he
  · cases hnone
  · obtain ⟨⟨n, ch⟩, hch, heq⟩ := List.mem_map.1 hmem
    injection heq with hn hface
    obtain ⟨info, -, hinfo⟩ := ok_of_bind hface
    injection hinfo with hinfo
    obtain ⟨hname, hschema⟩ := build_schema hch
    rw [← hinfo]
    exact congrArg some (hschema.trans (congrArg schemaOf hname.symm))

/-! ### Worlds -/

/-- The registry has been built from the fields that are kept beside it. -/
structure Built (w : Wiring) (world : World) : Prop where
  channels : world.channels = w.build world.built
  names : w.orderedNames world.channels = .ok world.names

/-- A reader sees the same of what is stored, and of what the channels are built from. -/
structure World.Alike (w : Wiring) (world world' : World) : Prop where
  settings : w.Alike world.settings world'.settings
  built : w.Alike world.built world'.built

/-- The card that a save of the channel answers with. -/
def World.cardOf (w : Wiring) (world : World) (channel : String) : Option (Go ChannelCard) :=
  (world.get channel).map fun ch => w.channelCard ch (Wiring.fieldsOf world.settings channel)

theorem Built.schema {world : World} (h : Built w world) {ch : Channel} (hget : world.get channel = some ch) :
    ch.name = channel ∧ ch.configSchema = schemaOf channel := by
  rw [World.get, h.channels] at hget
  obtain ⟨before, after, hbuild, -⟩ := List.lookup_eq_some_iff.1 hget
  have hmem : (channel, ch) ∈ w.build world.built := by simp [hbuild]
  exact build_schema hmem

section views

variable {world world' : World} (hworld : Built w world) (hworld' : Built w world') (h : world.Alike w world')

include hworld hworld' h

theorem entries_alike : shownEntries w world.channels = shownEntries w world'.channels := by
  rw [hworld.channels, hworld'.channels]
  exact build_alike h.built

theorem shownChannels_alike : w.shownChannels world.channels = w.shownChannels world'.channels := by
  rw [shownChannels_eq, shownChannels_eq, entries_alike hworld hworld' h]

theorem names_alike : world.names = world'.names := by
  have hnames := hworld.names
  unfold Wiring.orderedNames at hnames
  rw [shownChannels_alike hworld hworld' h] at hnames
  exact Except.ok.inj (hnames.symm.trans hworld'.names)

theorem get_alike' (name : String) :
    (world.get name).map (Channel.shown w) = (world'.get name).map (Channel.shown w) := by
  rw [World.get, World.get, ← lookup_map, ← lookup_map]
  exact congrArg (List.lookup name) (entries_alike hworld hworld' h)

theorem channelCards_alike (read : Bool) : w.channelCards read world = w.channelCards read world' := by
  unfold Wiring.channelCards Wiring.channelFields
  by_cases hstore : w.hasChannelSettings
  · cases read with
    | false => simp only [hstore, not_true_eq_false, if_false, Bool.false_eq_true]
    | true =>
      simp only [hstore, not_true_eq_false, if_false, if_true]
      cases hshown : w.shownChannels world.channels with
      | error p =>
        rw [← shownChannels_alike hworld hworld' h, hshown]
        rfl
      | ok shown =>
        rw [← shownChannels_alike hworld hworld' h, hshown]
        rw [hworld.channels] at hshown
        refine congrArg (Except.ok ∘ Except.ok) (List.map_congr_left fun e he => ?_)
        refine card_alike h.settings ?_
        obtain ⟨entry, hentry, rfl⟩ := List.mem_map.1 ((List.mem_insertionSort _).1 he)
        exact shownChannels_built hshown hentry
  · have hstore : w.hasChannelSettings = false := Bool.eq_false_iff.2 hstore
    simp only [hstore, Bool.false_eq_true, not_false_eq_true, if_true, shownChannels_alike hworld hworld' h]

theorem configView_alike (name : String) : world.configView name = world'.configView name := by
  have hconfig : ∀ ch : Channel, ch.channelConfig = (ch.shown w).map PaymentChannel.channelConfig := by
    intro ch
    unfold Channel.shown
    cases ch.channelConfig <;> rfl
  have hget := get_alike' hworld hworld' h name
  unfold World.configView
  cases hch : world.get name with
  | none =>
    rw [hch] at hget
    rw [Option.map_eq_none_iff.1 hget.symm]
  | some ch =>
    rw [hch] at hget
    obtain ⟨ch', hch', hsame⟩ := Option.map_eq_some_iff.1 hget.symm
    rw [hch']
    dsimp only
    rw [hconfig, hconfig, hsame]

theorem billingConfig_alike : world.billingConfig = world'.billingConfig := by
  have hview : world.configView = world'.configView := funext (configView_alike hworld hworld' h)
  rw [World.billingConfig, World.billingConfig, hview, names_alike hworld hworld' h]

theorem cardOf_alike (channel : String) : world.cardOf w channel = world'.cardOf w channel := by
  have hget := get_alike' hworld hworld' h channel
  unfold World.cardOf
  cases hch : world.get channel with
  | none =>
    rw [hch] at hget
    rw [Option.map_eq_none_iff.1 hget.symm]
    rfl
  | some ch =>
    rw [hch] at hget
    obtain ⟨ch', hch', hsame⟩ := Option.map_eq_some_iff.1 hget.symm
    rw [hch', Option.map_some, Option.map_some]
    refine congrArg some ?_
    unfold Wiring.channelCard
    rw [hsame]
    cases hshown : ch.shown w with
    | error p => rfl
    | ok face =>
      refine congrArg Except.ok (card_alike h.settings ?_)
      obtain ⟨info, -, hinfo⟩ := ok_of_bind hshown
      injection hinfo with hinfo
      rw [← hinfo]
      exact congrArg some (hworld.schema hch).2

end views

end Ploykit.Billing.Adapters

import Ploykit.Lib.Keyed
import Ploykit.Platform.Json
import Ploykit.Platform.Webx
import Ploykit.Quota.Model

/-!
# Editing plans

The column `limits` of a plan is read by two packages. The quotas want integers for their
dimensions and take `limit_mode` as a string; billing reads every member as an integer, and
replaces the column by what it has read. Statements do not fail here, the audit is left out,
and nothing comes between reading a plan and submitting it.
-/

namespace Ploykit.Quota

open Json

/-! ## Limits in the quotas -/

def isQuotaDimKey (k : String) : Bool :=
  if (Strings.cutPrefix k "price_").isSome || (Strings.cutPrefix k "metered_").isSome then false
  else k ≠ "trial_days" && k ≠ "limit_mode"

/-- The loop of `parseLimits` over the members. -/
def parseDims : List (Sigma fun _ : String => Json) → GoMap Int → Option (GoMap Int)
  | [], l => some l
  | ⟨k, v⟩ :: rest, l =>
    if ¬ isQuotaDimKey k then parseDims rest l
    else match v.decodeInt with
      | (n, false) => parseDims rest (l.insert k n)
      | (_, true) => none

def parseMode (all : GoMap Json) : LimitMode :=
  match all.lookup "limit_mode" with
  | none => .hard
  | some m => if m.decodeString = ("soft", false) then .soft else .hard

def parseLimits (raw : Json) : Option (GoMap Int × LimitMode) :=
  match unmarshalMap decodeRaw raw with
  | (_, true) => none
  | (all, false) => (parseDims all.entries ∅).map fun l => (l, parseMode all)

/-- The limit of every dimension, and the mode. -/
def derivedLimits (raw : Json) : Option ((String → Option Int) × LimitMode) :=
  (parseLimits raw).map fun (l, mode) => (fun k => l.lookup k, mode)

section derived

variable {raw : Json} {entries : List (Sigma fun _ : String => Json)} {l l' : GoMap Int} {k : String} {v : Json}

/-- The document is accepted: it is a map, and its dimensions are integers. -/
structure Accepted (raw : Json) : Prop where
  map : (unmarshalMap decodeRaw raw).2 = false
  dims : ∀ k v, raw.members.lookup k = some v → isQuotaDimKey k → v.decodeInt.2 = false

theorem parseDims_decodes (h : parseDims entries l = some l') : ∀ e ∈ entries, isQuotaDimKey e.1 → e.2.decodeInt.2 = false := by
  induction entries generalizing l with
  | nil =>
    intro e he
    cases he
  | cons e entries ih =>
    obtain ⟨k, v⟩ := e
    rw [parseDims] at h
    intro e he hdim
    split at h
    · rename_i hother
      rcases List.mem_cons.1 he with rfl | he
      · exact absurd hdim hother
      · exact ih h e he hdim
    · split at h
      · rename_i n hn
        rcases List.mem_cons.1 he with rfl | he
        · exact congrArg Prod.snd hn
        · exact ih h e he hdim
      · cases h

/-- The loop sets the dimensions, and leaves the rest. -/
theorem parseDims_lookup (hnodup : entries.NodupKeys) (h : ∀ e ∈ entries, isQuotaDimKey e.1 → e.2.decodeInt.2 = false) :
    ∃ l', parseDims entries l = some l' ∧ ∀ k, l'.lookup k =
      if isQuotaDimKey k then ((entries.dlookup k).map fun v => v.decodeInt.1).or (l.lookup k) else l.lookup k := by
  induction entries generalizing l with
  | nil => exact ⟨l, rfl, fun k => (ite_self _).symm⟩
  | cons e entries ih =>
    obtain ⟨k, v⟩ := e
    have hrest := fun e he => h e (List.mem_cons_of_mem _ he)
    have hfresh : entries.dlookup k = none := List.dlookup_eq_none.2 (List.notMem_keys_of_nodupKeys_cons hnodup)
    rw [parseDims]
    split
    · rename_i hother
      obtain ⟨l', hl', hlookup⟩ := ih (l := l) (List.nodupKeys_of_nodupKeys_cons hnodup) hrest
      refine ⟨l', hl', fun k' => (hlookup k').trans ?_⟩
      by_cases hk : k' = k
      · subst hk
        rw [if_neg hother, if_neg hother]
      · rw [List.dlookup_cons_ne _ _ hk]
    · rename_i hdim
      have hok := h ⟨k, v⟩ List.mem_cons_self (Decidable.not_not.1 hdim)
      obtain ⟨l', hl', hlookup⟩ := ih (l := l.insert k v.decodeInt.1) (List.nodupKeys_of_nodupKeys_cons hnodup) hrest
      have hv : v.decodeInt = (v.decodeInt.1, false) := Prod.ext rfl hok
      rw [hv]
      refine ⟨l', hl', fun k' => (hlookup k').trans ?_⟩
      by_cases hk : k' = k
      · subst hk
        rw [if_pos (Decidable.not_not.1 hdim), if_pos (Decidable.not_not.1 hdim), hfresh, List.dlookup_cons_eq]
        exact AList.lookup_insert l
      · rw [List.dlookup_cons_ne _ _ hk, AList.lookup_insert_ne hk]

theorem accepted_of_parseLimits (h : (parseLimits raw).isSome) : Accepted raw := by
  unfold parseLimits at h
  split at h
  · cases h
  · rename_i all hall
    refine ⟨congrArg Prod.snd hall, fun k v hv hdim => ?_⟩
    rw [Option.isSome_map] at h
    obtain ⟨l, hl⟩ := Option.isSome_iff_exists.1 h
    have hmembers : raw.members = all := congrArg Prod.fst hall
    exact parseDims_decodes hl ⟨k, v⟩ (List.of_mem_dlookup (hmembers ▸ hv)) hdim

/-- What is derived of an accepted document. -/
theorem Accepted.derivedLimits (h : Accepted raw) : derivedLimits raw = some
    (fun k => if isQuotaDimKey k then (raw.members.lookup k).map fun v => v.decodeInt.1 else none, parseMode raw.members) := by
  have hall : unmarshalMap decodeRaw raw = (raw.members, false) := Prod.ext rfl h.map
  obtain ⟨l, hl, hlookup⟩ := parseDims_lookup (l := ∅) raw.members.nodupKeys fun e he hdim =>
    h.dims e.1 e.2 (List.mem_dlookup raw.members.nodupKeys he) hdim
  have hlimits : (fun k => l.lookup k) = fun k => if isQuotaDimKey k then
      (raw.members.lookup k).map fun v => v.decodeInt.1 else none := by
    funext k
    refine (hlookup k).trans ?_
    rw [AList.lookup_empty, Option.or_none]
    rfl
  rw [Quota.derivedLimits, parseLimits, hall]
  simp only [hl, Option.map_some, hlimits]

theorem decodeString_soft (v : Json) : v.decodeString = ("soft", false) ↔ v = .string "soft" := by
  cases v with
  | string s =>
    rw [decodeString, Prod.mk.injEq, Json.string.injEq]
    exact and_iff_left rfl
  | _ => simp [decodeString]

/-- Only a string makes the limits soft. -/
theorem parseMode_soft {all : GoMap Json} : parseMode all = .soft ↔ all.lookup "limit_mode" = some (.string "soft") := by
  unfold parseMode
  cases all.lookup "limit_mode" with
  | none => exact ⟨nofun, nofun⟩
  | some m =>
    rw [Option.some.injEq, ← decodeString_soft]
    by_cases hm : m.decodeString = ("soft", false)
    · exact ⟨fun _ => hm, fun _ => if_pos hm⟩
    · exact ⟨fun h => absurd ((if_neg hm).symm.trans h) nofun, fun h => absurd h hm⟩

end derived

end Ploykit.Quota

namespace Ploykit.Billing.Plans

open Lib Json Quota Strconv

/-! ## Plans -/

/-- A row of `plan`. -/
structure PlanRow where
  code : String
  name : String
  limits : Json
  sortNo : Int
  currency : String

structure Plan where
  code : String
  name : String
  limits : GoMap Int
  sortNo : Int
  currency : String

abbrev Db := Keyed PlanRow.code

namespace PlanRow

/-- The row as `GetPlan` scans it. -/
def scanned (row : PlanRow) : Plan where
  code := row.code
  name := row.name
  limits := (unmarshalMap decodeInt row.limits).1
  sortNo := row.sortNo
  currency := row.currency

/-- `p.Limits[k] = int(n)`, if the number is an integer. -/
def setNumber (limits : GoMap Int) (e : Sigma fun _ : String => String) : GoMap Int :=
  match parseInt e.2 with
  | some n => limits.insert e.1 n
  | none => limits

/-- The row as `ListPlans` scans it: limits that do not decode are read as numbers once more. -/
def listed (row : PlanRow) : Plan :=
  let p := row.scanned
  if (unmarshalMap decodeInt row.limits).2 then
    match unmarshalMap decodeNumber row.limits with
    | (raw, false) => { p with limits := raw.entries.foldl setNumber p.limits }
    | (_, true) => p
  else p

end PlanRow

namespace Db

variable (db : Db)

def getPlan (code : String) : Option Plan := (db.get code).map PlanRow.scanned

def listPlans : List Plan := (db.rows.mergeSort fun a b => a.sortNo ≤ b.sortNo).map PlanRow.listed

/-- The plan has been read, by either. -/
def Returns (code : String) (p : Plan) : Prop := db.getPlan code = some p ∨ p ∈ db.listPlans ∧ p.code = code

def updatePlan (code name : String) (limits : Json) (sortNo : Int) (currency : String) : Bool × Db :=
  ((db.get code).isSome, db.update [code] (fun row => { row with name, limits, sortNo, currency }) fun _ => rfl)

end Db

/-! ## Editing -/

structure PlanUpdateInput where
  name : String
  currency : String
  sortNo : Int
  limits : GoMap Int

/-- What has been read, to be submitted. -/
def Plan.input (p : Plan) : PlanUpdateInput := ⟨p.name, p.currency, p.sortNo, p.limits⟩

/-- `^[A-Z]{3}$` -/
def planCurrencyRe (s : String) : Bool := s.toList.length = 3 ∧ s.toList.all Char.isUpper

/-- `^[a-z][a-z0-9_]{0,63}$` -/
def planLimitsKeyRe (s : String) : Bool :=
  match s.toList with
  | [] => false
  | c :: rest => c.isLower ∧ rest.length ≤ 63 ∧ rest.all fun c => c.isLower ∨ c.isDigit ∨ c = '_'

/-- Currencies whose minor unit has three decimals. -/
def threeDecimal : List String := ["BHD", "IQD", "JOD", "KWD", "LYD", "OMR", "TND"]

def validateCurrency (currency : String) : Except String Unit :=
  if currency.toList.length = 3 ∧ currency.toList.all Char.isAlpha then .ok ()
  else .error ("invalid currency \"" ++ currency ++ "\": want exactly 3 ASCII letters")

def checkMinorUnit (currency : String) : Except String Unit := do
  validateCurrency currency
  if currency.toUpper ∈ threeDecimal then
    throw ("currency \"" ++ currency.toUpper ++
      "\" has a 3-decimal minor unit, which the framework does not support (pricing would be 10x off)")

/-- The checks of `AdminUpdatePlan`. Of several invalid keys any one is named. -/
def PlanUpdateInput.validate (input : PlanUpdateInput) : Except Webx.Error Unit :=
  let n := (Strings.trimSpace input.name).length
  if n < 1 ∨ n > 100 then .error (Webx.newValidation "plan name must be 1..100 characters")
  else if ¬ planCurrencyRe input.currency then
    .error (Webx.newValidation "plan currency must be a 3-letter uppercase ISO 4217 code")
  else match if input.currency ≠ "" then checkMinorUnit input.currency else .ok () with
    | .error err => .error (Webx.newValidation ("plan currency rejected: " ++ err))
    | .ok () => match input.limits.keys.find? fun k => ¬ planLimitsKeyRe k with
      | some k => .error (Webx.newValidation ("invalid plan limits key (want ^[a-z][a-z0-9_]\x7b0,63\x7d$): " ++ k))
      | none => .ok ()

def adminUpdatePlan (code : String) (input : PlanUpdateInput) (db : Db) : Except Webx.Error Plan × Db :=
  match input.validate with
  | .error e => (.error e, db)
  | .ok () =>
    let name := Strings.trimSpace input.name
    match db.getPlan code with
    | none => (.error (Webx.newNotFound "plan not found"), db)
    | some _ =>
      match db.updatePlan code name (marshalInts input.limits) input.sortNo input.currency with
      | (true, db) => (.ok ⟨code, name, input.limits, input.sortNo, input.currency⟩, db)
      | (false, db) => (.error (Webx.newNotFound "plan not found"), db)

/-! ## What is read -/

/-- The limits that have been read have the keys of the document, and the integers that are in it. -/
structure Reads (doc : Json) (limits : GoMap Int) : Prop where
  keys : ∀ k, k ∈ limits ↔ k ∈ doc.members
  ints : ∀ k v, doc.members.lookup k = some v → v.decodeInt.2 = false → limits.lookup k = some v.decodeInt.1
  bounds : ∀ k n, limits.lookup k = some n → IsInt64 n

section reads

variable {doc : Json} {limits : GoMap Int} {row : PlanRow} {k : String} {v : Json}

theorem reads_unmarshal (doc : Json) : Reads doc (unmarshalMap decodeInt doc).1 where
  keys _ := mem_unmarshalMap
  ints k v hv _ := by
    rw [lookup_unmarshalMap, hv]
    rfl
  bounds k n hn := by
    rw [lookup_unmarshalMap] at hn
    obtain ⟨v, -, rfl⟩ := Option.map_eq_some_iff.1 hn
    exact v.decodeInt_isInt64

/-- A number that is an integer is what it decodes to. -/
theorem decodeInt_of_number {n : Int} (hn : parseInt v.decodeNumber.1 = some n) (hv : v.decodeInt.2 = false) :
    v.decodeInt.1 = n := by
  cases v with
  | null =>
    have hempty : parseInt "" = none := by decide
    rw [decodeNumber, hempty] at hn
    cases hn
  | number literal =>
    have hliteral : parseInt literal = some n := hn
    rw [decodeInt, hliteral]
    rfl
  | _ => cases hv

/-- Setting what is read as a number changes no integer. -/
theorem Reads.setNumber (h : Reads doc limits) {e : Sigma fun _ : String => String}
    (he : ∃ v, doc.members.lookup e.1 = some v ∧ e.2 = v.decodeNumber.1) : Reads doc (PlanRow.setNumber limits e) := by
  obtain ⟨k, s⟩ := e
  obtain ⟨v, hv, rfl⟩ := he
  rw [PlanRow.setNumber]
  split
  · rename_i n hn
    have hk : k ∈ doc.members := AList.lookup_isSome.1 (hv ▸ rfl)
    refine ⟨fun k' => ?_, fun k' v' hv' hint => ?_, fun k' n' hn' => ?_⟩
    · rw [AList.mem_insert, h.keys]
      exact ⟨fun hk' => hk'.elim (fun heq => heq ▸ hk) id, .inr⟩
    · by_cases heq : k' = k
      · subst heq
        obtain rfl := Option.some.inj (hv.symm.trans hv')
        rw [AList.lookup_insert, decodeInt_of_number hn hint]
      · rw [AList.lookup_insert_ne heq]
        exact h.ints k' v' hv' hint
    · by_cases heq : k' = k
      · subst heq
        rw [AList.lookup_insert] at hn'
        exact Option.some.inj hn' ▸ parseInt_isInt64 hn
      · rw [AList.lookup_insert_ne heq] at hn'
        exact h.bounds k' n' hn'
  · exact h

theorem Reads.setNumbers {entries : List (Sigma fun _ : String => String)} (h : Reads doc limits)
    (hentries : ∀ e ∈ entries, ∃ v, doc.members.lookup e.1 = some v ∧ e.2 = v.decodeNumber.1) :
    Reads doc (entries.foldl PlanRow.setNumber limits) := by
  induction entries generalizing limits with
  | nil => exact h
  | cons e entries ih =>
    exact ih (h.setNumber (hentries e List.mem_cons_self)) fun e' he' => hentries e' (List.mem_cons_of_mem _ he')

theorem reads_listed (row : PlanRow) : Reads row.limits row.listed.limits := by
  have hscanned := reads_unmarshal row.limits
  simp only [PlanRow.listed]
  split
  · split
    · rename_i raw hraw
      refine hscanned.setNumbers fun e he => ?_
      have hlookup : raw.lookup e.1 = some e.2 := List.mem_dlookup raw.nodupKeys he
      obtain rfl : (unmarshalMap decodeNumber row.limits).1 = raw := congrArg Prod.fst hraw
      rw [lookup_unmarshalMap] at hlookup
      obtain ⟨v, hv, heq⟩ := Option.map_eq_some_iff.1 hlookup
      exact ⟨v, hv, heq.symm⟩
    · exact hscanned
  · exact hscanned

theorem listed_fields (row : PlanRow) :
    row.listed.code = row.code ∧ row.listed.name = row.name ∧ row.listed.currency = row.currency := by
  simp only [PlanRow.listed]
  split
  · split
    · exact ⟨rfl, rfl, rfl⟩
    · exact ⟨rfl, rfl, rfl⟩
  · exact ⟨rfl, rfl, rfl⟩

/-- What both return of a row. -/
theorem returns_spec {db : Db} (hrow : row ∈ db.rows) {p : Plan} (hp : Db.Returns db row.code p) :
    p.name = row.name ∧ p.currency = row.currency ∧ Reads row.limits p.limits := by
  have hget : db.get row.code = some row := Keyed.get_of_mem hrow
  rcases hp with hp | ⟨hp, hcode⟩
  · rw [Db.getPlan, hget] at hp
    cases hp
    exact ⟨rfl, rfl, reads_unmarshal _⟩
  · obtain ⟨row', hmem, rfl⟩ := List.mem_map.1 hp
    have hrow' : row' ∈ db.rows := List.mem_mergeSort.1 hmem
    obtain ⟨hcode', hname, hcurrency⟩ := listed_fields row'
    have hsame : row' = row := by
      refine Option.some.inj ((Keyed.get_of_mem hrow').symm.trans ?_)
      rw [← hcode', hcode, hget]
    subst hsame
    exact ⟨hname, hcurrency, reads_listed row'⟩

end reads

/-! ## What is derived afterwards -/

section edit

variable {limits : GoMap Int} {row : PlanRow} {db : Db} {p : Plan}

theorem decodeInt_repr {n : Int} (h : IsInt64 n) : (Json.number n.repr).decodeInt = (n, false) := by
  rw [decodeInt, parseInt_repr h]
  rfl

/-- Of limits that are integers the quotas derive the dimensions, in hard mode. -/
theorem derivedLimits_marshalInts (hbounds : ∀ k n, limits.lookup k = some n → IsInt64 n) :
    derivedLimits (marshalInts limits) = some (fun k => if isQuotaDimKey k then limits.lookup k else none, .hard) := by
  have haccepted : Accepted (marshalInts limits) := by
    refine ⟨unmarshalMap_marshalInts limits, fun k v hv _ => ?_⟩
    rw [lookup_marshalInts] at hv
    obtain ⟨n, hn, rfl⟩ := Option.map_eq_some_iff.1 hv
    rw [decodeInt_repr (hbounds k n hn)]
  have hmode : parseMode (marshalInts limits).members = .hard := by
    cases hmode : parseMode (marshalInts limits).members with
    | hard => rfl
    | soft =>
      have hsoft := parseMode_soft.1 hmode
      rw [lookup_marshalInts] at hsoft
      obtain ⟨n, -, hn⟩ := Option.map_eq_some_iff.1 hsoft
      cases hn
  rw [haccepted.derivedLimits, hmode]
  refine congrArg some (Prod.ext (funext fun k => ?_) rfl)
  refine if_congr Iff.rfl ?_ rfl
  rw [lookup_marshalInts, Option.map_map]
  cases hk : limits.lookup k with
  | none => rfl
  | some n => exact congrArg some (congrArg Prod.fst (decodeInt_repr (hbounds k n hk)))

/-- The document is accepted, and the limits have been read from it: the same dimensions are derived. -/
theorem Reads.dims {doc : Json} (hreads : Reads doc limits) (haccepted : Accepted doc) :
    (fun k => if isQuotaDimKey k then limits.lookup k else none)
      = fun k => if isQuotaDimKey k then (doc.members.lookup k).map fun v => v.decodeInt.1 else none := by
  funext k
  split
  · rename_i hdim
    cases hk : doc.members.lookup k with
    | none => exact AList.lookup_eq_none.2 fun hmem => AList.lookup_eq_none.1 hk ((hreads.keys k).1 hmem)
    | some v => exact hreads.ints k v hk (haccepted.dims k v hk hdim)
  · rfl

/-- `AdminUpdatePlan` takes the fields of the row back. -/
structure PlanRow.Editable (row : PlanRow) : Prop where
  name : 1 ≤ (Strings.trimSpace row.name).length ∧ (Strings.trimSpace row.name).length ≤ 100
  currency : planCurrencyRe row.currency
  minorUnit : checkMinorUnit row.currency = .ok ()
  keys : ∀ k ∈ row.limits.members, planLimitsKeyRe k

theorem currency_ne_empty {currency : String} (h : planCurrencyRe currency) : currency ≠ "" := by
  rintro rfl
  have hempty : planCurrencyRe "" = false := by decide
  exact absurd h (hempty ▸ Bool.false_ne_true)

theorem validate_iff (hname : p.name = row.name) (hcurrency : p.currency = row.currency) (hreads : Reads row.limits p.limits) :
    p.input.validate = .ok () ↔ row.Editable := by
  have hkeys : p.limits.keys.find? (fun k => ¬ planLimitsKeyRe k) = none ↔ ∀ k ∈ row.limits.members, planLimitsKeyRe k := by
    rw [List.find?_eq_none]
    refine forall_congr' fun k => ?_
    rw [← AList.mem_keys, hreads.keys]
    simp
  simp only [PlanUpdateInput.validate, Plan.input, hname, hcurrency]
  constructor
  · intro h
    split at h
    · cases h
    rename_i hlength
    split at h
    · cases h
    rename_i hcurrency
    have hcurrency := Decidable.not_not.1 hcurrency
    rw [if_pos (currency_ne_empty hcurrency)] at h
    split at h
    · cases h
    rename_i hminor
    split at h
    · cases h
    rename_i hvalid
    rw [not_or] at hlength
    exact ⟨⟨Nat.not_lt.1 hlength.1, Nat.not_lt.1 hlength.2⟩, hcurrency, hminor, hkeys.1 hvalid⟩
  · intro h
    have hlength : ¬ ((Strings.trimSpace row.name).length < 1 ∨ (Strings.trimSpace row.name).length > 100) :=
      not_or.2 ⟨Nat.not_lt.2 h.name.1, Nat.not_lt.2 h.name.2⟩
    rw [if_neg hlength, if_neg (not_not_intro h.currency), if_pos (currency_ne_empty h.currency), h.minorUnit]
    simp only [hkeys.2 h.keys]

/-- What the quotas derive of the plan. -/
def Db.derived (db : Db) (code : String) : Option (Option ((String → Option Int) × LimitMode)) :=
  (db.get code).map fun row => derivedLimits row.limits

/-- Fields that pass the checks replace the row. -/
theorem adminUpdatePlan_ok {code : String} {input : PlanUpdateInput} (hvalid : input.validate = .ok ())
    (hget : db.get code = some row) : (adminUpdatePlan code input db).2 =
      (Db.updatePlan db code (Strings.trimSpace input.name) (marshalInts input.limits) input.sortNo input.currency).2 := by
  have hplan : Db.getPlan db code = some row.scanned := congrArg (Option.map PlanRow.scanned) hget
  simp only [adminUpdatePlan, hvalid, hplan, Db.updatePlan, hget, Option.isSome_some]

/-- Submitting what has been read keeps what the quotas derive just if the limits are not soft, or the
fields are not taken back. -/
theorem resubmit_keeps (hrow : row ∈ db.rows) (haccepted : (parseLimits row.limits).isSome) (hp : Db.Returns db row.code p) :
    Db.derived (adminUpdatePlan row.code p.input db).2 row.code = Db.derived db row.code ↔
      row.limits.members.lookup "limit_mode" ≠ some (.string "soft") ∨ ¬ row.Editable := by
  have haccepted := accepted_of_parseLimits haccepted
  have hget : db.get row.code = some row := Keyed.get_of_mem hrow
  obtain ⟨hname, hcurrency, hreads⟩ := returns_spec hrow hp
  rw [← validate_iff hname hcurrency hreads]
  cases hvalid : p.input.validate with
  | error e =>
    have hkept : (adminUpdatePlan row.code p.input db).2 = db := by
      rw [adminUpdatePlan, hvalid]
    exact ⟨fun _ => .inr nofun, fun _ => congrArg (fun db => Db.derived db row.code) hkept⟩
  | ok u =>
    -- the column is replaced by what has been read
    have hderived : Db.derived (adminUpdatePlan row.code p.input db).2 row.code
        = some (derivedLimits (marshalInts p.limits)) := by
      rw [adminUpdatePlan_ok hvalid hget, Db.updatePlan, Db.derived, Keyed.get_update_self, hget]
      rfl
    have hbefore : Db.derived db row.code = some (derivedLimits row.limits) := congrArg (Option.map _) hget
    rw [hderived, hbefore, derivedLimits_marshalInts hreads.bounds, haccepted.derivedLimits, hreads.dims haccepted]
    cases hmode : parseMode row.limits.members with
    | soft =>
      have hsoft := parseMode_soft.1 hmode
      exact ⟨nofun, fun h => h.elim (fun hhard => absurd hsoft hhard) fun hinvalid => absurd rfl hinvalid⟩
    | hard =>
      have hhard : row.limits.members.lookup "limit_mode" ≠ some (.string "soft") := fun hsoft =>
        nomatch hmode.symm.trans (parseMode_soft.2 hsoft)
      exact ⟨fun _ => .inl hhard, fun _ => rfl⟩

end edit

/-- One plan, with a dimension, a price and a mode. -/
def plans (mode : String) : Db where
  rows := [{
    code := "pro", name := "Pro", sortNo := 1, currency := "CNY"
    limits := .object [("seats", .number "3"), ("price_monthly_cents", .number "9900"), ("limit_mode", .string mode)] }]
  nodup := List.nodup_singleton _

theorem plans_accepted : ∀ mode ∈ ["soft", "hard"], ∀ row ∈ (plans mode).rows, (parseLimits row.limits).isSome := by
  decide

theorem resubmit_keeps_hard : (plans "hard").rows ≠ [] ∧ ∀ row ∈ (plans "hard").rows,
    Db.derived (adminUpdatePlan row.code row.listed.input (plans "hard")).2 row.code = Db.derived (plans "hard") row.code := by
  refine ⟨List.cons_ne_nil _ _, fun row hrow => ?_⟩
  have hlisted : row.listed ∈ Db.listPlans (plans "hard") := List.mem_map_of_mem (List.mem_mergeSort.2 hrow)
  have hmode : ∀ row ∈ (plans "hard").rows, parseMode row.limits.members = .hard := by decide
  refine (resubmit_keeps hrow (plans_accepted _ (by simp) row hrow) (.inr ⟨hlisted, (listed_fields row).1⟩)).2 (.inl ?_)
  exact fun hsoft => nomatch (hmode row hrow).symm.trans (parseMode_soft.2 hsoft)

theorem resubmit_hardens : ¬ ∀ (db : Db) (row : PlanRow) (p : Plan), row ∈ db.rows → (parseLimits row.limits).isSome →
    Db.Returns db row.code p → Db.derived (adminUpdatePlan row.code p.input db).2 row.code = Db.derived db row.code := by
  intro h
  have hmodes : ∀ row ∈ (plans "soft").rows, ((derivedLimits row.limits).map Prod.snd, (Db.derived
      (adminUpdatePlan row.code row.scanned.input (plans "soft")).2 row.code).map fun d => d.map Prod.snd)
      = (some .soft, some (some .hard)) := by decide +kernel
  obtain ⟨row, hrow⟩ : ∃ row, row ∈ (plans "soft").rows := ⟨_, List.mem_cons_self⟩
  have hget : Keyed.get (plans "soft") row.code = some row := Keyed.get_of_mem hrow
  have hkept := h _ row row.scanned hrow (plans_accepted _ (by simp) row hrow) (.inl (congrArg (Option.map _) hget))
  obtain ⟨hbefore, hafter⟩ := Prod.ext_iff.1 (hmodes row hrow)
  rw [hkept, Db.derived, hget] at hafter
  cases hbefore.symm.trans (Option.some.inj hafter)

end Ploykit.Billing.Plans

import Ploykit.Platform.GoString
import Ploykit.Platform.Json

/-!
# Svix signatures

`svixVerifyAt` and `svixKey` of `platform/webx/svix.go`, with `time.Unix`, `Time.Sub` and `Time.Add` in
64 bits. The HMAC is any function of the key and the content.
-/

namespace Ploykit.Webx.Svix

open GoString

/-! ## Base64 -/

def sextet (c : UInt8) : Option UInt8 :=
  if 'A'.toUInt8 ≤ c ∧ c ≤ 'Z'.toUInt8 then some (c - 'A'.toUInt8)
  else if 'a'.toUInt8 ≤ c ∧ c ≤ 'z'.toUInt8 then some (c - 'a'.toUInt8 + 26)
  else if '0'.toUInt8 ≤ c ∧ c ≤ '9'.toUInt8 then some (c - '0'.toUInt8 + 52)
  else if c = '+'.toUInt8 then some 62
  else if c = '/'.toUInt8 then some 63
  else none

def pad : UInt8 := '='.toUInt8

/-- The groups of four characters, of which the last may be padded. -/
def decodeGroups : GoString → Option GoString
  | [] => some []
  | a :: b :: c :: d :: s =>
    match sextet a, sextet b, sextet c, sextet d with
    | some a, some b, some c, some d => (decodeGroups s).map ([a <<< 2 ||| b >>> 4, b <<< 4 ||| c >>> 2, c <<< 6 ||| d] ++ ·)
    | some a, some b, some c, none => if d = pad ∧ s = [] then some [a <<< 2 ||| b >>> 4, b <<< 4 ||| c >>> 2] else none
    | some a, some b, none, none => if c = pad ∧ d = pad ∧ s = [] then some [a <<< 2 ||| b >>> 4] else none
    | _, _, _, _ => none
  | _ => none

/-- `base64.StdEncoding.DecodeString`, which skips line breaks. -/
def decodeString (s : GoString) : Option GoString := decodeGroups (s.filter fun c => c ≠ 0x0A ∧ c ≠ 0x0D)

/-! ## Time -/

/-- The seconds from the year 1 to 1970. -/
def unixToInternal : Int := 62135596800

def wrap (n : Int) : Int := (n + 2 ^ 63) % 2 ^ 64 - 2 ^ 63

/-- A time by its seconds since the year 1. -/
structure Time where
  sec : Int
  nsec : Int

namespace Time

/-- `time.Unix(ts, 0)` -/
def unix (ts : Int) : Time := ⟨wrap (ts + unixToInternal), 0⟩

/-- `addSec`, which stays at the ends of the range. -/
def addSec (sec d : Int) : Int := max (-(2 ^ 63 - 1)) (min (2 ^ 63 - 1) (sec + d))

def add (t : Time) (d : Int) : Time :=
  let nsec := t.nsec + d.tmod (10 ^ 9)
  if 10 ^ 9 ≤ nsec then ⟨addSec t.sec (d.tdiv (10 ^ 9) + 1), nsec - 10 ^ 9⟩
  else if nsec < 0 then ⟨addSec t.sec (d.tdiv (10 ^ 9) - 1), nsec + 10 ^ 9⟩
  else ⟨addSec t.sec (d.tdiv (10 ^ 9)), nsec⟩

def before (t u : Time) : Prop := t.sec < u.sec ∨ t.sec = u.sec ∧ t.nsec < u.nsec

instance (t u : Time) : Decidable (t.before u) := inferInstanceAs (Decidable (_ ∨ _))

/-- The difference as a duration, or the end of the range on its side. -/
def sub (t u : Time) : Int :=
  let d := wrap (wrap (wrap (t.sec - u.sec) * 10 ^ 9) + (t.nsec - u.nsec))
  if (u.add d).sec = t.sec ∧ (u.add d).nsec = t.nsec then d else if t.before u then -2 ^ 63 else 2 ^ 63 - 1

end Time

/-- A reading of the clock, in the years 1 to 9999. -/
structure Now where
  time : Time
  years : 0 ≤ time.sec ∧ time.sec < 315537897600
  nanos : 0 ≤ time.nsec ∧ time.nsec < 10 ^ 9

/-! ## Verification -/

def dot : UInt8 := '.'.toUInt8
def comma : UInt8 := ','.toUInt8

def tolerance : Int := 5 * 60 * 10 ^ 9

def svixKey (secret : GoString) : Option GoString :=
  decodeString (if lit "whsec_" <+: secret then secret.drop (lit "whsec_").length else secret)

/-- `strconv.ParseInt` of a text of bytes. -/
def parseTimestamp (s : GoString) : Option Int := (Strconv.parseSigned (s.map Char.ofUInt8)).filter fun n => Strconv.IsInt64 n

structure Triple where
  msgID : GoString
  timestamp : GoString
  body : GoString
  deriving DecidableEq

def Triple.content (t : Triple) : GoString := t.msgID ++ dot :: (t.timestamp ++ dot :: t.body)

/-- A candidate of the first version that decodes to the code. -/
def candidate (want cand : GoString) : Bool :=
  comma ∈ cand && cand.takeWhile (· ≠ comma) = lit "v1" && decodeString ((cand.dropWhile (· ≠ comma)).drop 1) = some want

def svixVerifyAt (hmac : GoString → GoString → GoString) (secret signature : GoString) (t : Triple) (now : Now) : Bool :=
  if t.msgID = [] ∨ t.timestamp = [] ∨ signature = [] then false
  else
    match parseTimestamp t.timestamp with
    | none => false
    | some ts =>
      let skew := now.time.sub (.unix ts)
      if tolerance < skew ∨ skew < -tolerance then false
      else
        match svixKey secret with
        | none => false
        | some key => (fields signature).any (candidate (hmac key t.content))

section window

variable {ts : Int} {now : Now}

/-- The difference of two times in nanoseconds. -/
def nanos (now : Now) (ts : Int) : Int := (now.time.sec - unixToInternal - ts) * 10 ^ 9 + now.time.nsec

/-- Where adding a small duration to the time of a timestamp gives the reading, it is the difference. -/
theorem nanos_of_add (hts : Strconv.IsInt64 ts) {d : Int} (hd : -tolerance ≤ d ∧ d ≤ tolerance)
    (hsec : ((Time.unix ts).add d).sec = now.time.sec) (hnsec : ((Time.unix ts).add d).nsec = now.time.nsec) : d = nanos now ts := by
  have hsplit : d = 10 ^ 9 * d.tdiv (10 ^ 9) + d.tmod (10 ^ 9) := (Int.mul_tdiv_add_tmod d (10 ^ 9)).symm
  have hlt : d.tmod (10 ^ 9) < 10 ^ 9 := Int.tmod_lt_of_pos d (by decide)
  have hgt : -10 ^ 9 < d.tmod (10 ^ 9) := Int.lt_tmod_of_pos d (by decide)
  obtain ⟨hyear, hyear'⟩ := now.years
  obtain ⟨hlow, hhigh⟩ := hts
  unfold Time.add Time.unix at hsec hnsec
  simp only [Time.addSec, wrap, unixToInternal, tolerance, nanos] at hsec hnsec hd ⊢
  generalize d.tdiv (10 ^ 9) = q at *
  generalize d.tmod (10 ^ 9) = r at *
  split at hsec
  · omega
  · split at hsec
    · rename_i hge hneg
      rw [if_neg hge, if_pos hneg] at hnsec
      simp only at hsec hnsec
      omega
    · rename_i hge hneg
      rw [if_neg hge, if_neg hneg] at hnsec
      simp only at hsec hnsec
      omega

/-- A difference within the tolerance is the true one. -/
theorem sub_unix (hts : Strconv.IsInt64 ts) (h : ¬ (tolerance < now.time.sub (.unix ts) ∨ now.time.sub (.unix ts) < -tolerance)) :
    now.time.sub (.unix ts) = nanos now ts := by
  unfold Time.sub at h ⊢
  simp only at h ⊢
  generalize wrap (wrap (wrap (now.time.sec - (Time.unix ts).sec) * 10 ^ 9) + (now.time.nsec - (Time.unix ts).nsec)) = d at h ⊢
  split at h
  · rename_i heq
    rw [if_pos heq]
    exact nanos_of_add hts (by omega) heq.1 heq.2
  · split at h <;> simp only [tolerance] at h <;> omega

theorem accepted_cases {hmac : GoString → GoString → GoString} {secret signature : GoString} {t : Triple}
    (h : svixVerifyAt hmac secret signature t now = true) :
    ∃ ts key, parseTimestamp t.timestamp = some ts ∧ svixKey secret = some key ∧
      ¬ (tolerance < now.time.sub (.unix ts) ∨ now.time.sub (.unix ts) < -tolerance) ∧
      (fields signature).any (candidate (hmac key t.content)) = true := by
  unfold svixVerifyAt at h
  split at h
  · cases h
  · split at h
    · cases h
    · rename_i ts hts
      simp only at h
      split at h
      · cases h
      · rename_i hskew
        split at h
        · cases h
        · rename_i key hkey
          exact ⟨ts, key, hts, hkey, hskew, h⟩

theorem parseTimestamp_isInt64 {s : GoString} (h : parseTimestamp s = some ts) : Strconv.IsInt64 ts :=
  of_decide_eq_true (Option.filter_eq_some_iff.1 h).2

end window

/-! ## The parts of the content -/

section parts

variable {a b r r' s : GoString} {ts : Int}

/-- With as many dots before it the same dot divides the text. -/
theorem divide_inj (h : a ++ dot :: r = b ++ dot :: r') (hcount : a.count dot = b.count dot) : a = b ∧ r = r' := by
  induction a generalizing b with
  | nil =>
    cases b with
    | nil => exact ⟨rfl, (List.cons.inj h).2⟩
    | cons c b =>
      have hc : c = dot := (List.cons.inj h).1.symm
      rw [hc, List.count_cons_self, List.count_nil] at hcount
      omega
  | cons c a ih =>
    cases b with
    | nil =>
      have hc : c = dot := (List.cons.inj h).1
      rw [hc, List.count_cons_self, List.count_nil] at hcount
      omega
    | cons c' b =>
      obtain ⟨rfl, hrest⟩ := List.cons.inj h
      obtain ⟨rfl, hr⟩ := ih hrest (by rw [List.count_cons, List.count_cons] at hcount; omega)
      exact ⟨rfl, hr⟩

theorem parseDigits_isDigit {digits : List Char} {n : Nat} (h : Strconv.parseDigits digits = some n) : ∀ c ∈ digits, c.isDigit = true := by
  unfold Strconv.parseDigits at h
  split at h
  · rename_i hdigits
    exact List.all_eq_true.1 hdigits.2
  · cases h

theorem dot_notMem_digits {digits : List Char} (h : Strconv.parseDigits digits ≠ none) : '.' ∉ digits := by
  intro hmem
  obtain ⟨n, hn⟩ := Option.ne_none_iff_exists'.1 h
  exact absurd (parseDigits_isDigit hn '.' hmem) (by decide)

theorem dot_notMem_signed {l : List Char} (h : Strconv.parseSigned l = some ts) : '.' ∉ l := by
  unfold Strconv.parseSigned at h
  split at h
  · refine List.not_mem_cons_of_ne_of_not_mem (by decide) (dot_notMem_digits fun hnone => ?_)
    rw [hnone] at h
    cases h
  · refine List.not_mem_cons_of_ne_of_not_mem (by decide) (dot_notMem_digits fun hnone => ?_)
    rw [hnone] at h
    cases h
  · refine dot_notMem_digits fun hnone => ?_
    rw [hnone] at h
    cases h

/-- A number has no dot. -/
theorem dot_notMem (h : parseTimestamp s = some ts) : dot ∉ s := by
  intro hmem
  have hchar : '.' ∈ s.map Char.ofUInt8 := List.mem_map.2 ⟨dot, hmem, by decide⟩
  exact dot_notMem_signed (Option.filter_eq_some_iff.1 h).1 hchar

end parts

/-! ## Binding -/

/-- Two triples with the same signed content that are accepted are the same exactly if their ids have as many dots, and the
timestamp of every accepted one is within the tolerance. -/
theorem svix_binds {hmac : GoString → GoString → GoString} {secret signature signature' : GoString} {t t' : Triple} {now now' : Now}
    (h : svixVerifyAt hmac secret signature t now = true) (h' : svixVerifyAt hmac secret signature' t' now' = true)
    (hcontent : t.content = t'.content) :
    (t = t' ↔ t.msgID.count dot = t'.msgID.count dot) ∧
      ∃ ts, parseTimestamp t.timestamp = some ts ∧ -tolerance ≤ nanos now ts ∧ nanos now ts ≤ tolerance := by
  obtain ⟨ts, -, hts, -, hskew, -⟩ := accepted_cases h
  obtain ⟨ts', -, hts', -, -, -⟩ := accepted_cases h'
  refine ⟨⟨fun heq => heq ▸ rfl, fun hdots => ?_⟩, ts, hts, ?_⟩
  · obtain ⟨hid, hrest⟩ := divide_inj hcontent hdots
    have hnone : t.timestamp.count dot = t'.timestamp.count dot := by
      rw [List.count_eq_zero_of_not_mem (dot_notMem hts), List.count_eq_zero_of_not_mem (dot_notMem hts')]
    obtain ⟨htimestamp, hbody⟩ := divide_inj hrest hnone
    cases t
    cases t'
    simp only at hid htimestamp hbody
    rw [hid, htimestamp, hbody]
  · have hsub := sub_unix (parseTimestamp_isInt64 hts) hskew
    rw [hsub] at hskew
    omega

/-- A hundred seconds after the start of 1970. -/
def hundred : Now := ⟨⟨unixToInternal + 100, 0⟩, by decide, by decide⟩

/-- The code of a content is the content itself. -/
def plainCode (_ content : GoString) : GoString := content

def signed : GoString := lit "v1,bS4xMDAuMTAxLng="

/-- A message with a number at the start of its body is the same as itself. -/
theorem svix_binds_self : nanos hundred 100 = 0 ∧ ∃ ts, parseTimestamp (lit "100") = some ts ∧ -tolerance ≤ nanos hundred ts ∧ nanos hundred ts ≤ tolerance := by
  have h : svixVerifyAt plainCode [] signed ⟨lit "m", lit "100", lit "101.x"⟩ hundred = true := by decide +kernel
  exact ⟨by decide, (svix_binds h h rfl).2⟩

/-- The number at the start of a body is read as the timestamp of another message, with a dot in its id. -/
theorem shifted_accepted : ¬ ∀ (hmac : GoString → GoString → GoString), (∀ key, Function.Injective (hmac key)) →
    ∀ (secret signature : GoString) (t t' : Triple) (now : Now), t.content = t'.content →
      svixVerifyAt hmac secret signature t now = true → svixVerifyAt hmac secret signature t' now = true → t = t' := by
  intro h
  have heq := h plainCode (fun _ _ _ hc => hc) [] signed ⟨lit "m", lit "100", lit "101.x"⟩ ⟨lit "m.100", lit "101", lit "x"⟩ hundred rfl
    (by decide +kernel) (by decide +kernel)
  exact absurd heq (by decide)

end Ploykit.Webx.Svix

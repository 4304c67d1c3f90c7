import Ploykit.Lib.Calendar
import Ploykit.Platform.Text

/-!
# Money

`billing/money`. Channels carry amounts as display strings, the services count in minor units.
Amounts that come from outside are not trusted: what is no amount is read as zero.
-/

namespace Ploykit.Billing.Money

open Lib

/-! ## Currencies -/

/-- `math.MaxInt` -/
def maxInt : Nat := 9223372036854775807

/-- What 64 bits keep of an integer. -/
def wrap64 (n : Int) : Int := n.bmod (2 ^ 64)

/-- The minor unit of the currency has exponent 0. -/
def zeroDecimal (currency : String) : Bool := currency.toList.map Char.toUpper = "JPY".toList

/-! ## Parsing -/

def errOverflow : String := "money: amount overflow"

def digit (c : Char) : Nat := c.toNat - '0'.toNat

def digitsOnly (s : List Char) : Bool := s.all Char.isDigit

/-- One round of `atoiClamped`. -/
def atoiNext (v : Nat) (c : Char) : Except String Nat :=
  if (maxInt - digit c) / 10 < v then .error errOverflow else .ok (v * 10 + digit c)

def atoiClamped (digits : List Char) : Except String Nat := digits.foldlM atoiNext 0

def parseUnits (intPart fracPart : List Char) : Except String Nat := do
  let whole ← atoiClamped intPart
  let frac := fracPart.foldl (fun v c => v * 10 + digit c) 0
  let frac := if fracPart.length = 1 then frac * 10 else frac
  if (maxInt - 99) / 100 < whole then .error errOverflow else .ok (whole * 100 + frac)

/-- The part before the first point, and the one behind it. -/
def cutPoint (s : List Char) : List Char × List Char := (s.takeWhile (· ≠ '.'), (s.dropWhile (· ≠ '.')).tail)

/-- `ParseAmount` of what follows the sign. -/
def parseUnsigned (s : List Char) : Nat :=
  if s = [] then 0
  else
    let (intPart, fracPart) := cutPoint s
    if 2 < fracPart.length ∨ ¬ digitsOnly intPart ∨ ¬ digitsOnly fracPart then 0
    else
      match if '.' ∈ s then parseUnits intPart fracPart else atoiClamped intPart with
      | .error _ => 0
      | .ok units => units

/-- `ParseAmount` of what has been trimmed. -/
def parseTrimmed : List Char → Int
  | '-' :: s => -parseUnsigned s
  | '+' :: s => parseUnsigned s
  | s => parseUnsigned s

def parseAmount (display : String) : Int := parseTrimmed (Strings.trimSpace display).toList

/-- `strings.Trim(s, "0")` -/
def trimZeros (s : List Char) : List Char := ((s.dropWhile (· = '0')).reverse.dropWhile (· = '0')).reverse

def parseAmountForCurrency (display currency : String) : Int :=
  if ¬ zeroDecimal currency then parseAmount display
  else
    let s := (Strings.trimSpace display).toList
    if '.' ∈ s then
      let (intPart, frac) := cutPoint s
      if frac ≠ [] ∧ trimZeros frac ≠ [] then 0 else parseAmount (String.ofList intPart)
    else parseAmount (String.ofList s)

/-! ## Formatting -/

/-- `%02d` -/
def twoDigits (n : Int) : String := if 0 ≤ n then Calendar.padded 2 n.toNat else "-" ++ Calendar.padded 1 (-n).toNat

def formatCents (cents : Int) (currency : String) : String :=
  if zeroDecimal currency then cents.repr
  else
    let sign := if cents < 0 then "-" else ""
    let cents := if cents < 0 then wrap64 (-cents) else cents
    sign ++ (cents.tdiv 100).repr ++ "." ++ twoDigits (cents.tmod 100)

/-! ## What a display says -/

inductive Sign where
  | absent
  | plus
  | minus
  deriving DecidableEq, Repr

def Sign.text : Sign → List Char
  | absent => []
  | plus => ['+']
  | minus => ['-']

def Sign.apply : Sign → Nat → Int
  | minus, n => -n
  | _, n => n

/-- The number that the digits are. -/
def value (digits : List Char) : Nat := Nat.ofDigitChars 10 digits 0

/-- The display is the amount in minor units, or in major units with a point and at most two digits behind it. Where the
minor unit is the major one only zeros follow a point. -/
inductive Displays (zero : Bool) : List Char → Int → Prop
  | minor (sign : Sign) {digits : List Char} (h : digitsOnly digits) :
      Displays zero (sign.text ++ digits) (sign.apply (value digits))
  | major (sign : Sign) {whole frac : List Char} (hzero : zero = false) (h : digitsOnly whole) (h' : digitsOnly frac)
      (hlen : frac.length ≤ 2) : Displays zero (sign.text ++ (whole ++ '.' :: frac))
        (sign.apply (value whole * 100 + value (frac ++ List.replicate (2 - frac.length) '0')))
  | zeros (sign : Sign) {whole : List Char} (n : Nat) (hzero : zero = true) (h : digitsOnly whole) :
      Displays zero (sign.text ++ (whole ++ '.' :: List.replicate n '0')) (sign.apply (value whole))

/-- A blank stands before the point. -/
def BlankBeforePoint (s : List Char) : Prop := ∃ l c r, s = l ++ c :: '.' :: r ∧ Strings.isSpace c

/-! ## Digits -/

section digits

variable {s whole frac : List Char}

theorem digit_le {c : Char} (h : c.isDigit) : digit c ≤ 9 := by
  have hc : c.val ≤ '9'.val := (Bool.and_eq_true _ _ ▸ h : _ ∧ _).2 |> of_decide_eq_true
  have hnat : c.val.toNat ≤ '9'.val.toNat := hc
  exact Nat.sub_le_sub_right hnat _

theorem digitsOnly_cons {c : Char} : digitsOnly (c :: s) ↔ c.isDigit ∧ digitsOnly s := by simp [digitsOnly]

theorem notMem_of_digitsOnly {c : Char} (h : digitsOnly s) (hc : c.isDigit = false) : c ∉ s := by
  intro hmem
  have hdigit := List.all_eq_true.1 h c hmem
  rw [hc] at hdigit
  cases hdigit

theorem le_ofDigitChars (s : List Char) (v : Nat) : v ≤ Nat.ofDigitChars 10 s v := by
  induction s generalizing v with
  | nil => simp
  | cons c s ih =>
    rw [Nat.ofDigitChars_cons]
    exact Nat.le_trans (by omega) (ih _)

/-- The loop is cut off where the number does not fit. -/
theorem atoiClamped_eq (h : digitsOnly s) : atoiClamped s = if value s ≤ maxInt then .ok (value s) else .error errOverflow := by
  have hloop (v : Nat) (hv : v ≤ maxInt) :
      s.foldlM atoiNext v = if Nat.ofDigitChars 10 s v ≤ maxInt then .ok (Nat.ofDigitChars 10 s v) else .error errOverflow := by
    induction s generalizing v with
    | nil => simp [hv]; rfl
    | cons c s ih =>
      obtain ⟨hc, hs⟩ := digitsOnly_cons.1 h
      have hdigit : digit c ≤ 9 := digit_le hc
      have hmax : 9 ≤ maxInt := by decide
      have hnext : 10 * v + (c.toNat - '0'.toNat) = v * 10 + digit c := by
        rw [Nat.mul_comm]
        rfl
      rw [List.foldlM_cons, Nat.ofDigitChars_cons, hnext, atoiNext]
      by_cases hfits : v * 10 + digit c ≤ maxInt
      · have hguard : ¬ (maxInt - digit c) / 10 < v := by omega
        rw [if_neg hguard]
        exact ih hs _ hfits
      · have hguard : (maxInt - digit c) / 10 < v := by omega
        have hmore : v * 10 + digit c ≤ Nat.ofDigitChars 10 s (v * 10 + digit c) := le_ofDigitChars _ _
        rw [if_pos hguard, if_neg (by omega)]
        rfl
  exact hloop 0 (Nat.zero_le _)

/-- What the fraction counts, filled up to two digits. -/
theorem value_frac (hlen : frac.length ≤ 2) :
    (if frac.length = 1 then frac.foldl (fun v c => v * 10 + digit c) 0 * 10 else frac.foldl (fun v c => v * 10 + digit c) 0)
      = value (frac ++ List.replicate (2 - frac.length) '0') := by
  match frac, hlen with
  | [], _ => rfl
  | [a], _ => simp [value, Nat.ofDigitChars_cons, digit]; omega
  | [a, b], _ => simp [value, Nat.ofDigitChars_cons, digit]; omega

theorem parseUnits_eq (h : digitsOnly whole) (hlen : frac.length ≤ 2) : parseUnits whole frac =
    if value whole ≤ (maxInt - 99) / 100 then .ok (value whole * 100 + value (frac ++ List.replicate (2 - frac.length) '0'))
    else .error errOverflow := by
  rw [parseUnits, atoiClamped_eq h]
  dsimp only
  rw [value_frac hlen]
  by_cases hfits : value whole ≤ (maxInt - 99) / 100
  · have hint : value whole ≤ maxInt := hfits.trans (by decide)
    rw [if_pos hint, if_pos hfits]
    exact if_neg (not_lt.2 hfits)
  · rw [if_neg hfits]
    by_cases hint : value whole ≤ maxInt
    · rw [if_pos hint]
      exact if_pos (not_le.1 hfits)
    · rw [if_neg hint]
      rfl

/-- Two digits count less than a hundred. -/
theorem value_frac_le (h : digitsOnly frac) (hlen : frac.length ≤ 2) :
    value (frac ++ List.replicate (2 - frac.length) '0') ≤ 99 := by
  match frac, hlen, h with
  | [], _, _ => decide
  | [a], _, h =>
    have ha : digit a ≤ 9 := digit_le (digitsOnly_cons.1 h).1
    have hval : value ([a] ++ List.replicate (2 - [a].length) '0') = digit a * 10 := by
      simp [value, Nat.ofDigitChars_cons, digit]
      omega
    omega
  | [a, b], _, h =>
    obtain ⟨ha, h⟩ := digitsOnly_cons.1 h
    have ha : digit a ≤ 9 := digit_le ha
    have hb : digit b ≤ 9 := digit_le (digitsOnly_cons.1 h).1
    have hval : value ([a, b] ++ List.replicate (2 - [a, b].length) '0') = digit a * 10 + digit b := by
      simp [value, Nat.ofDigitChars_cons, digit]
      omega
    omega

end digits

/-! ## Parsing is exact or zero -/

section parsing

variable {s whole frac : List Char} {v : Int}

theorem cutPoint_of_notMem (h : '.' ∉ s) : cutPoint s = (s, []) := by
  have hp : ∀ c ∈ s, decide (c ≠ '.') = true := fun c hc => decide_eq_true fun heq => h (heq ▸ hc)
  simp only [cutPoint, List.takeWhile_eq_self_iff.2 hp, List.dropWhile_eq_nil_iff.2 hp, List.tail_nil]

theorem cutPoint_append (h : '.' ∉ whole) : cutPoint (whole ++ '.' :: frac) = (whole, frac) := by
  have hp : ∀ c ∈ whole, decide (c ≠ '.') = true := fun c hc => decide_eq_true fun heq => h (heq ▸ hc)
  rw [cutPoint, List.takeWhile_append_of_pos hp, List.dropWhile_append_of_pos hp]
  simp

theorem parseUnsigned_digits (h : digitsOnly s) : parseUnsigned s = if value s ≤ maxInt then value s else 0 := by
  have hpoint : '.' ∉ s := notMem_of_digitsOnly h (by decide)
  cases s with
  | nil => rfl
  | cons c s =>
    have hguard : ¬ (2 < ([] : List Char).length ∨ ¬ digitsOnly (c :: s) ∨ ¬ digitsOnly []) := by
      rw [h]
      decide
    rw [parseUnsigned, if_neg (List.cons_ne_nil c s), cutPoint_of_notMem hpoint]
    dsimp only
    rw [if_neg hguard, if_neg hpoint, atoiClamped_eq h]
    by_cases hfits : value (c :: s) ≤ maxInt
    · simp only [if_pos hfits]
    · simp only [if_neg hfits]

theorem parseUnsigned_point (h : digitsOnly whole) (h' : digitsOnly frac) (hlen : frac.length ≤ 2) :
    parseUnsigned (whole ++ '.' :: frac) = if value whole ≤ (maxInt - 99) / 100 then
      value whole * 100 + value (frac ++ List.replicate (2 - frac.length) '0') else 0 := by
  have hne : whole ++ '.' :: frac ≠ [] := by simp
  have hmem : '.' ∈ whole ++ '.' :: frac := by simp
  have hguard : ¬ (2 < frac.length ∨ ¬ digitsOnly whole ∨ ¬ digitsOnly frac) := by simp [h, h', hlen]
  rw [parseUnsigned, if_neg hne, cutPoint_append (notMem_of_digitsOnly h (by decide))]
  dsimp only
  rw [if_neg hguard, if_pos hmem, parseUnits_eq h hlen]
  by_cases hfits : value whole ≤ (maxInt - 99) / 100
  · simp only [if_pos hfits]
  · simp only [if_neg hfits]

/-- What is neither digits nor digits with a point is read as zero. -/
theorem parseUnsigned_cases (s : List Char) : parseUnsigned s = 0 ∨ digitsOnly s ∨
    ∃ whole frac, s = whole ++ '.' :: frac ∧ digitsOnly whole ∧ digitsOnly frac ∧ frac.length ≤ 2 := by
  by_cases hnil : s = []
  · exact .inl (by rw [parseUnsigned, if_pos hnil])
  by_cases hguard : 2 < (cutPoint s).2.length ∨ ¬ digitsOnly (cutPoint s).1 ∨ ¬ digitsOnly (cutPoint s).2
  · refine .inl ?_
    rw [parseUnsigned, if_neg hnil]
    exact if_pos hguard
  · simp only [not_or, not_lt, not_not] at hguard
    obtain ⟨hlen, hint, hfrac⟩ := hguard
    by_cases hpoint : '.' ∈ s
    · obtain ⟨whole, frac, rfl, hwhole⟩ := List.eq_append_cons_of_mem hpoint
      rw [cutPoint_append hwhole] at hlen hint hfrac
      exact .inr (.inr ⟨whole, frac, rfl, hint, hfrac, hlen⟩)
    · rw [cutPoint_of_notMem hpoint] at hint
      exact .inr (.inl hint)

theorem parseTrimmed_text (sign : Sign) (h : sign = .absent → s.head? ≠ some '-' ∧ s.head? ≠ some '+') :
    parseTrimmed (sign.text ++ s) = sign.apply (parseUnsigned s) := by
  cases sign with
  | absent =>
    obtain ⟨hminus, hplus⟩ := h rfl
    change parseTrimmed s = parseUnsigned s
    unfold parseTrimmed
    split
    · exact absurd rfl hminus
    · exact absurd rfl hplus
    · rfl
  | plus => rfl
  | minus => rfl

theorem parseTrimmed_cases (t : List Char) : ∃ sign s, t = Sign.text sign ++ s ∧ parseTrimmed t = sign.apply (parseUnsigned s) := by
  unfold parseTrimmed
  split
  · exact ⟨.minus, _, rfl, rfl⟩
  · exact ⟨.plus, _, rfl, rfl⟩
  · exact ⟨.absent, _, rfl, rfl⟩

theorem Sign.natAbs_apply (sign : Sign) (n : Nat) : (sign.apply n).natAbs = n := by
  cases sign <;> simp [Sign.apply]

theorem Sign.apply_zero (sign : Sign) : sign.apply 0 = 0 := by
  cases sign <;> rfl

/-- The largest amount that is read with a point. -/
def maxAmount (zero : Bool) : Nat := if zero then maxInt else 9223372036854775799

theorem head_ne_of_digitsOnly {c : Char} (h : digitsOnly s) (hc : c.isDigit = false) : s.head? ≠ some c :=
  fun heq => notMem_of_digitsOnly h hc (List.mem_of_mem_head? heq)

theorem parseTrimmed_minor (sign : Sign) (h : digitsOnly s) (hv : (sign.apply (value s)).natAbs ≤ maxInt) :
    parseTrimmed (sign.text ++ s) = sign.apply (value s) := by
  rw [Sign.natAbs_apply] at hv
  rw [parseTrimmed_text sign fun _ => ⟨head_ne_of_digitsOnly h (by decide), head_ne_of_digitsOnly h (by decide)⟩,
    parseUnsigned_digits h, if_pos hv]

/-- What displays an amount is read exactly, where it is not too large. -/
theorem parseTrimmed_displays (h : Displays false s v) (hv : v.natAbs ≤ maxAmount false) : parseTrimmed s = v := by
  cases h with
  | minor sign hdigits => exact parseTrimmed_minor sign hdigits (hv.trans (by decide))
  | @major sign whole frac _ hwhole hfrac hlen =>
    rw [Sign.natAbs_apply] at hv
    have hfits : value whole ≤ (maxInt - 99) / 100 := by
      have hmax : (maxInt - 99) / 100 = 92233720368547757 := by decide
      have hamount : maxAmount false = 9223372036854775799 := rfl
      omega
    have hsigns (c : Char) (hc : c.isDigit = false) (hpoint : c ≠ '.') : (whole ++ '.' :: frac).head? ≠ some c := by
      cases whole with
      | nil => simpa using hpoint.symm
      | cons d whole =>
        have hd := head_ne_of_digitsOnly hwhole hc
        simpa using hd
    rw [parseTrimmed_text sign fun _ => ⟨hsigns _ (by decide) (by decide), hsigns _ (by decide) (by decide)⟩,
      parseUnsigned_point hwhole hfrac hlen, if_pos hfits]
  | zeros sign n hzero => cases hzero

/-- What is read is zero, or what is displayed. -/
theorem parseTrimmed_eq_zero_or (s : List Char) :
    parseTrimmed s = 0 ∨ Displays false s (parseTrimmed s) ∧ (parseTrimmed s).natAbs ≤ maxInt := by
  obtain ⟨sign, s, rfl, heq⟩ := parseTrimmed_cases s
  rw [heq, Sign.natAbs_apply]
  rcases parseUnsigned_cases s with h | h | ⟨whole, frac, rfl, hwhole, hfrac, hlen⟩
  · exact .inl (by rw [h, Sign.apply_zero])
  · rw [parseUnsigned_digits h]
    split
    · exact .inr ⟨.minor sign h, ‹_›⟩
    · exact .inl (Sign.apply_zero sign)
  · rw [parseUnsigned_point hwhole hfrac hlen]
    split
    · rename_i hfits
      have hle := value_frac_le hfrac hlen
      have hmax : (maxInt - 99) / 100 = 92233720368547757 := by decide
      have hmax' : maxInt = 9223372036854775807 := rfl
      exact .inr ⟨.major sign rfl hwhole hfrac hlen, by omega⟩
    · exact .inl (Sign.apply_zero sign)

end parsing

/-! ## Blanks -/

section blanks

variable {l : List Char}

theorem trimmed_trimSpace (s : String) : Text.Trimmed Strings.isSpace (Strings.trimSpace s).toList := by
  rw [Strings.trimSpace, String.toList_ofList]
  exact Text.trimmed_trim Strings.isSpace s.toList

theorem trimSpace_ofList (h : Text.Trimmed Strings.isSpace l) : (Strings.trimSpace (String.ofList l)).toList = l := by
  rw [Strings.trimSpace, String.toList_ofList, String.toList_ofList]
  exact Text.trim_self h

theorem trimmed_whole {whole frac : List Char} (h : Text.Trimmed Strings.isSpace (whole ++ '.' :: frac))
    (hblank : ¬ BlankBeforePoint (whole ++ '.' :: frac)) : Text.Trimmed Strings.isSpace whole := by
  constructor
  · intro c hc
    refine h.1 c ?_
    rw [List.head?_append, Option.mem_def.1 hc]
    rfl
  · intro c hc
    obtain ⟨l, rfl⟩ := List.getLast?_eq_some_iff.1 hc
    by_contra hspace
    exact hblank ⟨l, c, frac, by simp, by simpa using hspace⟩

end blanks

/-! ## Currencies without a minor unit -/

section currencies

variable {s whole frac : List Char} {v : Int} {display currency : String}

theorem trimZeros_replicate (n : Nat) : trimZeros (List.replicate n '0') = [] := by
  simp [trimZeros]

theorem eq_replicate_of_trimZeros (h : trimZeros frac = []) : frac = List.replicate frac.length '0' := by
  have hdrop : (frac.dropWhile (· = '0')).reverse.dropWhile (· = '0') = [] := List.reverse_eq_nil_iff.1 h
  refine List.eq_replicate_iff.2 ⟨rfl, fun c hc => ?_⟩
  rcases List.mem_append.1 ((List.takeWhile_append_dropWhile (p := (· = '0')) (l := frac)) ▸ hc) with hc | hc
  · simpa using List.mem_takeWhile_imp hc
  · exact of_decide_eq_true (List.dropWhile_eq_nil_iff.1 hdrop c (List.mem_reverse.2 hc))

theorem parseAmount_ofList (h : Text.Trimmed Strings.isSpace s) : parseAmount (String.ofList s) = parseTrimmed s := by
  rw [parseAmount, trimSpace_ofList h]

/-- Without a point an amount says the same in all currencies. -/
theorem Displays.of_minor (h : Displays false s v) (hpoint : '.' ∉ s) : Displays true s v := by
  cases h with
  | minor sign hdigits => exact .minor sign hdigits
  | major sign _ _ _ _ => exact absurd (by simp) hpoint
  | zeros _ _ hzero => cases hzero

theorem zeros_of_minor {n : Nat} (h : Displays false s v) (hpoint : '.' ∉ s) :
    Displays true (s ++ '.' :: List.replicate n '0') v := by
  cases h with
  | minor sign hdigits =>
    rw [List.append_assoc]
    exact .zeros sign n rfl hdigits
  | major sign _ _ _ _ => exact absurd (by simp) hpoint
  | zeros _ _ hzero => cases hzero

theorem parse_zeroDecimal (hzero : zeroDecimal currency) (hs : (Strings.trimSpace display).toList = s) :
    parseAmountForCurrency display currency = if '.' ∈ s then
      if (cutPoint s).2 ≠ [] ∧ trimZeros (cutPoint s).2 ≠ [] then 0 else parseAmount (String.ofList (cutPoint s).1)
    else parseAmount (String.ofList s) := by
  rw [parseAmountForCurrency, if_neg (by simpa using hzero), hs]

/-- What is read is zero or what the display says, unless a blank stands before the point of an amount without minor unit. -/
theorem parse_eq_zero_or (display currency : String) :
    parseAmountForCurrency display currency = 0 ∨
    Displays (zeroDecimal currency) (Strings.trimSpace display).toList (parseAmountForCurrency display currency) ∧
      (parseAmountForCurrency display currency).natAbs ≤ maxInt ∨
    zeroDecimal currency ∧ BlankBeforePoint (Strings.trimSpace display).toList := by
  have htrimmed : Text.Trimmed Strings.isSpace (Strings.trimSpace display).toList := trimmed_trimSpace display
  by_cases hzero : zeroDecimal currency
  · generalize hs : (Strings.trimSpace display).toList = s at htrimmed ⊢
    rw [parse_zeroDecimal hzero hs, hzero]
    by_cases hpoint : '.' ∈ s
    · obtain ⟨whole, frac, rfl, hwhole⟩ := List.eq_append_cons_of_mem hpoint
      rw [if_pos hpoint, cutPoint_append hwhole]
      by_cases hblank : BlankBeforePoint (whole ++ '.' :: frac)
      · exact .inr (.inr ⟨rfl, hblank⟩)
      by_cases hfrac : frac ≠ [] ∧ trimZeros frac ≠ []
      · exact .inl (if_pos hfrac)
      · have hzeros : frac = List.replicate frac.length '0' := by
          by_cases hnil : frac = []
          · rw [hnil]
            rfl
          · exact eq_replicate_of_trimZeros (by simpa [hnil] using hfrac)
        rw [if_neg hfrac, parseAmount_ofList (trimmed_whole htrimmed hblank)]
        rcases parseTrimmed_eq_zero_or whole with h | ⟨h, hle⟩
        · exact .inl h
        · rw [hzeros]
          exact .inr (.inl ⟨zeros_of_minor h hwhole, hle⟩)
    · rw [if_neg hpoint, parseAmount_ofList htrimmed]
      rcases parseTrimmed_eq_zero_or s with h | ⟨h, hle⟩
      · exact .inl h
      · exact .inr (.inl ⟨h.of_minor hpoint, hle⟩)
  · rw [parseAmountForCurrency, if_pos hzero, parseAmount, Bool.eq_false_iff.2 hzero]
    rcases parseTrimmed_eq_zero_or (Strings.trimSpace display).toList with h | h
    · exact .inl h
    · exact .inr (.inl h)

theorem isSpace_of_displays {zero : Bool} (h : Displays zero s v) : ∀ c ∈ s, Strings.isSpace c = false := by
  have hdigit {c : Char} (hc : c.isDigit) : Strings.isSpace c = false := by
    have hbounds := Text.toNat_of_isDigit hc
    exact Text.isSpace_of_visible (by omega) (by omega)
  have hall {l : List Char} (hl : digitsOnly l) : ∀ c ∈ l, Strings.isSpace c = false := fun c hc => hdigit (List.all_eq_true.1 hl c hc)
  have hsigns (sign : Sign) : (sign.text.all fun c => !Strings.isSpace c) = true := by
    cases sign <;> decide
  have hsign (sign : Sign) : ∀ c ∈ sign.text, Strings.isSpace c = false := fun c hc => by
    simpa using List.all_eq_true.1 (hsigns sign) c hc
  have happend {l l' : List Char} (hl : ∀ c ∈ l, Strings.isSpace c = false) (hl' : ∀ c ∈ l', Strings.isSpace c = false) :
      ∀ c ∈ l ++ l', Strings.isSpace c = false := fun c hc => (List.mem_append.1 hc).elim (hl c) (hl' c)
  have hpoint : Strings.isSpace '.' = false := by decide
  cases h with
  | minor sign hdigits => exact happend (hsign sign) (hall hdigits)
  | major sign _ hwhole hfrac _ =>
    exact happend (hsign sign) (happend (hall hwhole) (List.forall_mem_cons.2 ⟨hpoint, hall hfrac⟩))
  | zeros sign n _ hwhole =>
    refine happend (hsign sign) (happend (hall hwhole) (List.forall_mem_cons.2 ⟨hpoint, fun c hc => ?_⟩))
    rw [List.eq_of_mem_replicate hc]
    decide

/-- What a display says is read, where it is not too large. -/
theorem parse_displays (h : Displays (zeroDecimal currency) (Strings.trimSpace display).toList v)
    (hv : v.natAbs ≤ maxAmount (zeroDecimal currency)) : parseAmountForCurrency display currency = v := by
  by_cases hzero : zeroDecimal currency
  · have hspace := isSpace_of_displays h
    generalize hs : (Strings.trimSpace display).toList = s at h hspace
    rw [hzero] at h hv
    rw [parse_zeroDecimal hzero hs]
    cases h with
    | @minor sign digits hdigits =>
      have hpoint : '.' ∉ sign.text ++ digits := by
        rw [List.mem_append, not_or]
        exact ⟨by cases sign <;> decide, notMem_of_digitsOnly hdigits (by decide)⟩
      rw [if_neg hpoint, parseAmount_ofList (Text.trimmed_of_forall hspace)]
      exact parseTrimmed_minor sign hdigits hv
    | major _ hfalse => cases hfalse
    | @zeros sign whole n _ hwhole =>
      have hpoint : '.' ∉ sign.text ++ whole := by
        rw [List.mem_append, not_or]
        exact ⟨by cases sign <;> decide, notMem_of_digitsOnly hwhole (by decide)⟩
      rw [← List.append_assoc] at hspace ⊢
      have hguard : ¬ (List.replicate n '0' ≠ [] ∧ trimZeros (List.replicate n '0') ≠ []) := by
        rw [trimZeros_replicate]
        exact fun hnot => hnot.2 rfl
      rw [if_pos (by simp), cutPoint_append hpoint]
      dsimp only
      rw [if_neg hguard, parseAmount_ofList (Text.trimmed_of_forall fun c hc => hspace c (List.mem_append_left _ hc))]
      exact parseTrimmed_minor sign hwhole hv
  · rw [Bool.eq_false_iff.2 hzero] at h hv
    rw [parseAmountForCurrency, if_pos hzero, parseAmount]
    exact parseTrimmed_displays h hv

end currencies

/-! ## Round trips -/

section roundTrip

variable {c : Int} {currency : String}

theorem digitsOnly_toDigits (n : Nat) : digitsOnly (Nat.toDigits 10 n) :=
  List.all_eq_true.2 fun _ hc => Nat.isDigit_of_mem_toDigits (by decide) (by decide) hc

theorem value_toDigits (n : Nat) : value (Nat.toDigits 10 n) = n := Nat.ofDigitChars_ten_toDigits

theorem displays_repr (c : Int) : Displays true c.repr.toList c := by
  cases c with
  | ofNat n =>
    have hdisplays : Displays true _ _ := .minor .absent (digitsOnly_toDigits n)
    rw [value_toDigits] at hdisplays
    rw [Int.repr, Nat.toList_repr]
    exact hdisplays
  | negSucc n =>
    have hdisplays : Displays true _ _ := .minor .minus (digitsOnly_toDigits (n + 1))
    rw [value_toDigits] at hdisplays
    rw [Int.repr, String.toList_append, Nat.toList_repr]
    exact hdisplays

theorem padded_spec : ∀ n < 100, (Calendar.padded 2 n).toList.length = 2 ∧ digitsOnly (Calendar.padded 2 n).toList ∧
    value (Calendar.padded 2 n).toList = n := by decide

/-- An amount that is not too small to be negated is formatted in hundredths. -/
theorem displays_formatCents (hzero : zeroDecimal currency = false) (hc : c.natAbs ≤ maxAmount false) :
    Displays false (formatCents c currency).toList c := by
  obtain ⟨n, hn⟩ : ∃ n : Nat, (if c < 0 then wrap64 (-c) else c) = n ∧ c.natAbs = n := by
    refine ⟨c.natAbs, ?_, rfl⟩
    have hmax : maxAmount false = 9223372036854775799 := rfl
    split
    · rw [wrap64, Int.bmod_eq_of_le (by omega) (by omega)]
      omega
    · omega
  obtain ⟨hlength, hdigits, hvalue⟩ := padded_spec (n % 100) (Nat.mod_lt _ (by decide))
  have htwo : twoDigits ((n : Int).tmod 100) = Calendar.padded 2 (n % 100) := by
    rw [twoDigits, Int.tmod_eq_emod_of_nonneg (Int.natCast_nonneg n), if_pos (Int.emod_nonneg _ (by decide))]
    rfl
  have hwhole : ((n : Int).tdiv 100).repr = (n / 100).repr := by
    rw [Int.tdiv_eq_ediv_of_nonneg (Int.natCast_nonneg n)]
    rfl
  have hsum : n / 100 * 100 + n % 100 = n := Nat.div_add_mod' n 100
  have hdisplays (sign : Sign) := Displays.major sign rfl (digitsOnly_toDigits (n / 100)) hdigits hlength.le
  have hexact (sign : Sign) : Displays false
      (sign.text ++ (Nat.toDigits 10 (n / 100) ++ '.' :: (Calendar.padded 2 (n % 100)).toList)) (sign.apply n) := by
    have h := hdisplays sign
    rwa [hlength, Nat.sub_self, List.replicate_zero, List.append_nil, hvalue, value_toDigits, hsum] at h
  have htext (sign : String) : (sign ++ ((n : Int).tdiv 100).repr ++ "." ++ twoDigits ((n : Int).tmod 100)).toList
      = sign.toList ++ (Nat.toDigits 10 (n / 100) ++ '.' :: (Calendar.padded 2 (n % 100)).toList) := by
    rw [hwhole, htwo]
    simp [String.toList_append, Nat.toList_repr]
  rw [formatCents, if_neg (by simp [hzero])]
  dsimp only
  rw [hn.1, htext]
  by_cases hneg : c < 0
  · have heq : Sign.minus.apply n = c := by
      simp only [Sign.apply]
      omega
    rw [if_pos hneg, ← heq]
    exact hexact .minus
  · have heq : Sign.absent.apply n = c := by
      simp only [Sign.apply]
      omega
    rw [if_neg hneg, ← heq]
    exact hexact .absent

theorem displays_format (hc : c.natAbs ≤ maxAmount (zeroDecimal currency)) :
    Displays (zeroDecimal currency) (Strings.trimSpace (formatCents c currency)).toList c := by
  have hdisplays : Displays (zeroDecimal currency) (formatCents c currency).toList c := by
    cases hzero : zeroDecimal currency with
    | true =>
      rw [formatCents, if_pos hzero]
      exact displays_repr c
    | false =>
      rw [hzero] at hc
      exact displays_formatCents hzero hc
  have htrimmed : Text.Trimmed Strings.isSpace (formatCents c currency).toList := Text.trimmed_of_forall (isSpace_of_displays hdisplays)
  have htrim := trimSpace_ofList htrimmed
  rw [String.ofList_toList] at htrim
  rw [htrim]
  exact hdisplays

end roundTrip

/-- For every string and currency: what is read is zero or the amount that the trimmed string displays, it is that amount
where it is not too large, and amounts that are not too large are read back from what they are formatted to. -/
theorem money_exact (display currency : String) :
    (¬ (zeroDecimal currency ∧ BlankBeforePoint (Strings.trimSpace display).toList) →
      parseAmountForCurrency display currency = 0 ∨
      Displays (zeroDecimal currency) (Strings.trimSpace display).toList (parseAmountForCurrency display currency) ∧
        (parseAmountForCurrency display currency).natAbs ≤ maxInt) ∧
    (∀ v, Displays (zeroDecimal currency) (Strings.trimSpace display).toList v →
      v.natAbs ≤ maxAmount (zeroDecimal currency) → parseAmountForCurrency display currency = v) ∧
    ∀ c : Int, c.natAbs ≤ maxAmount (zeroDecimal currency) → parseAmountForCurrency (formatCents c currency) currency = c := by
  refine ⟨fun hblank => ?_, fun v h hv => parse_displays h hv, fun c hc => parse_displays (displays_format hc) hc⟩
  rcases parse_eq_zero_or display currency with h | h | h
  · exact .inl h
  · exact .inr h
  · exact absurd h hblank

theorem money_exact_dollars : parseAmountForCurrency " -19.05 " "USD" = -1905 ∧
    parseAmountForCurrency (formatCents (-1905) "USD") "USD" = -1905 := by
  have hdisplays : Displays (zeroDecimal "USD") (['-'] ++ (['1', '9'] ++ '.' :: ['0', '5'])) (-1905) :=
    .major .minus (by decide) (by decide) (by decide) (by decide)
  obtain ⟨-, hexact, hreads⟩ := money_exact " -19.05 " "USD"
  exact ⟨hexact _ hdisplays (by decide), hreads (-1905) (by decide)⟩

/-- Blanks around an amount are no part of it. -/
theorem money_trims : ¬ ∀ display currency, parseAmountForCurrency display currency ≠ 0 →
    Displays (zeroDecimal currency) display.toList (parseAmountForCurrency display currency) := by
  intro h
  have hread : parseAmountForCurrency " 9.90 " "USD" = 990 := by decide
  have hspace := isSpace_of_displays (h " 9.90 " "USD" (by rw [hread]; decide)) ' ' (by decide)
  exact absurd hspace (by decide)

end Ploykit.Billing.Money

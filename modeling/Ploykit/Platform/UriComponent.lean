import Mathlib.Data.List.Basic

/-!
# URI components

`encodeURIComponent` and `decodeURIComponent` of the language. A string is a sequence of 16-bit units and is read as the code points
of these; a surrogate without its partner is a code point of its own, which has no UTF-8 encoding.
-/

namespace Ploykit.Js

inductive CodePoint where
  | scalar (c : Char)
  | surrogate (u : Fin 2048)
  deriving DecidableEq

abbrev JsString := List CodePoint

def ofChars (s : List Char) : JsString := s.map .scalar

def CodePoint.isScalar : CodePoint → Bool
  | .scalar _ => true
  | .surrogate _ => false

/-- There is no lone surrogate in the string. -/
def WellFormed (s : JsString) : Prop := ∀ x ∈ s, x.isScalar = true

instance (s : JsString) : Decidable (WellFormed s) := inferInstanceAs (Decidable (∀ x ∈ s, _))

/-! ## Escapes -/

def hexDigit (n : Nat) : Char := if n < 10 then Char.ofNat ('0'.toNat + n) else Char.ofNat ('A'.toNat + (n - 10))

def unhex : CodePoint → Option Nat
  | .scalar c =>
    if '0' ≤ c && c ≤ '9' then some (c.toNat - '0'.toNat)
    else if 'A' ≤ c && c ≤ 'F' then some (c.toNat - 'A'.toNat + 10)
    else if 'a' ≤ c && c ≤ 'f' then some (c.toNat - 'a'.toNat + 10)
    else none
  | .surrogate _ => none

def escapeByte (b : UInt8) : List Char := ['%', hexDigit (b.toNat / 16), hexDigit (b.toNat % 16)]

/-- The percent escapes of the character's UTF-8 encoding. -/
def escapeChar (c : Char) : List Char := (String.utf8EncodeChar c).flatMap escapeByte

/-- A code point that stands for itself, or the byte of an escape. -/
inductive Token where
  | plain (x : CodePoint)
  | byte (b : UInt8)
  deriving DecidableEq

/-- Every percent sign has two hexadecimal digits after it. -/
def tokens : JsString → Option (List Token)
  | [] => some []
  | x :: s =>
    if x = .scalar '%' then
      match s with
      | h :: l :: s =>
        match unhex h, unhex l with
        | some h, some l => (tokens s).map (.byte (UInt8.ofNat (h * 16 + l)) :: ·)
        | _, _ => none
      | _ => none
    else (tokens s).map (.plain x :: ·)

def text (run : List UInt8) : Option JsString := run.toByteArray.utf8Decode?.map fun cs => ofChars cs.toList

/-- A run of escaped bytes is UTF-8. -/
def decodeTokens (run : List UInt8) : List Token → Option JsString
  | [] => text run
  | .plain x :: ts => do
    let s ← text run
    let t ← decodeTokens [] ts
    return s ++ x :: t
  | .byte b :: ts => decodeTokens (run ++ [b]) ts

def decodeURIComponent (s : JsString) : Option JsString := do
  decodeTokens [] (← tokens s)

/-- `A-Z a-z 0-9 - _ . ! ~ * ' ( )` -/
def uriUnreserved (c : Char) : Bool := c.isAlphanum || "-_.!~*'()".toList.contains c

def chars : JsString → Option (List Char)
  | [] => some []
  | .scalar c :: s => (chars s).map (c :: ·)
  | .surrogate _ :: _ => none

def encodeURIComponent (s : JsString) : Option JsString :=
  (chars s).map fun cs => ofChars (cs.flatMap fun c => if uriUnreserved c then [c] else escapeChar c)

/-! ## Decoding undoes escaping -/

theorem unhex_hexDigit : ∀ n : Fin 16, unhex (.scalar (hexDigit n)) = some n.val := by decide

theorem tokens_plain {x : CodePoint} (hx : x ≠ .scalar '%') (s : JsString) : tokens (x :: s) = (tokens s).map (.plain x :: ·) := by
  conv => lhs; unfold tokens
  rw [if_neg hx]

theorem tokens_escapeByte (b : UInt8) (s : JsString) : tokens (ofChars (escapeByte b) ++ s) = (tokens s).map (.byte b :: ·) := by
  have hlt : b.toNat < 256 := b.toNat_lt
  have hhigh : unhex (.scalar (hexDigit (b.toNat / 16))) = some (b.toNat / 16) := unhex_hexDigit ⟨b.toNat / 16, by omega⟩
  have hlow : unhex (.scalar (hexDigit (b.toNat % 16))) = some (b.toNat % 16) := unhex_hexDigit ⟨b.toNat % 16, by omega⟩
  have hbyte : UInt8.ofNat (b.toNat / 16 * 16 + b.toNat % 16) = b := by
    rw [Nat.mul_comm, Nat.div_add_mod, UInt8.ofNat_toNat]
  show tokens (.scalar '%' :: .scalar _ :: .scalar _ :: s) = _
  conv => lhs; unfold tokens
  rw [if_pos rfl]
  simp only [hhigh, hlow, hbyte]

theorem tokens_escapeBytes (bs : List UInt8) (s : JsString) :
    tokens (ofChars (bs.flatMap escapeByte) ++ s) = (tokens s).map (bs.map .byte ++ ·) := by
  induction bs with
  | nil => simp [ofChars]
  | cons b bs ih =>
    have hsplit : ofChars ((b :: bs).flatMap escapeByte) ++ s = ofChars (escapeByte b) ++ (ofChars (bs.flatMap escapeByte) ++ s) := by
      simp [ofChars]
    rw [hsplit, tokens_escapeByte, ih, Option.map_map]
    rfl

theorem decodeTokens_bytes (run bs : List UInt8) (ts : List Token) :
    decodeTokens run (bs.map .byte ++ ts) = decodeTokens (run ++ bs) ts := by
  induction bs generalizing run with
  | nil => simp
  | cons b bs ih =>
    rw [List.map_cons, List.cons_append, decodeTokens, ih, List.append_assoc]
    rfl

theorem text_utf8 (cs : List Char) : text (cs.flatMap String.utf8EncodeChar) = some (ofChars cs) := by
  have hdecode : (cs.flatMap String.utf8EncodeChar).toByteArray.utf8Decode? = some cs.toArray := List.utf8Decode?_utf8Encode
  simp [text, hdecode]

/-- How a character may be written: as its escapes, or as a token for itself. -/
def Writes (c : Char) (ts : List Token) : Prop :=
  ts = [.plain (.scalar c)] ∨ ts = (String.utf8EncodeChar c).map .byte

/-- Characters that are each written for themselves or escaped are decoded, after those whose escapes are still open. -/
theorem decodeTokens_writes {f : Char → List Token} (hf : ∀ c, Writes c (f c)) (cs pending : List Char) :
    decodeTokens (pending.flatMap String.utf8EncodeChar) (cs.flatMap f) = some (ofChars (pending ++ cs)) := by
  induction cs generalizing pending with
  | nil => simpa [decodeTokens] using text_utf8 pending
  | cons c cs ih =>
    rw [List.flatMap_cons]
    rcases hf c with hplain | hbytes
    · have hrest := ih []
      rw [List.flatMap_nil, List.nil_append] at hrest
      rw [hplain, List.singleton_append, decodeTokens, text_utf8, hrest]
      simp [ofChars]
    · have hrest := ih (pending ++ [c])
      rw [List.flatMap_append, List.flatMap_cons, List.flatMap_nil, List.append_nil] at hrest
      rw [hbytes, decodeTokens_bytes, hrest]
      simp

/-! ## Lone surrogates -/

theorem wellFormed_ofChars (cs : List Char) : WellFormed (ofChars cs) := by
  intro x hx
  obtain ⟨c, -, rfl⟩ := List.mem_map.1 hx
  rfl

theorem wellFormed_cons {x : CodePoint} {s : JsString} : WellFormed (x :: s) ↔ x.isScalar = true ∧ WellFormed s :=
  List.forall_mem_cons

theorem wellFormed_append {s t : JsString} : WellFormed (s ++ t) ↔ WellFormed s ∧ WellFormed t := List.forall_mem_append

theorem chars_eq_some {s : JsString} {cs : List Char} : chars s = some cs ↔ s = ofChars cs := by
  induction s generalizing cs with
  | nil => cases cs <;> simp [chars, ofChars]
  | cons x s ih =>
    cases x with
    | scalar c => cases cs <;> simp [chars, ofChars, ih, and_comm]
    | surrogate u => cases cs <;> simp [chars, ofChars]

theorem wellFormed_iff_chars {s : JsString} : WellFormed s ↔ ∃ cs, s = ofChars cs := by
  constructor
  · intro h
    induction s with
    | nil => exact ⟨[], rfl⟩
    | cons x s ih =>
      obtain ⟨hx, hs⟩ := wellFormed_cons.1 h
      obtain ⟨cs, rfl⟩ := ih hs
      cases x with
      | scalar c => exact ⟨c :: cs, rfl⟩
      | surrogate u => cases hx
  · rintro ⟨cs, rfl⟩
    exact wellFormed_ofChars cs

/-- The tokens stand for no lone surrogate. -/
def Scalars (ts : List Token) : Prop := ∀ x, .plain x ∈ ts → x.isScalar = true

theorem wellFormed_text {run : List UInt8} {s : JsString} (h : text run = some s) : WellFormed s := by
  obtain ⟨cs, -, rfl⟩ := Option.map_eq_some_iff.1 h
  exact wellFormed_ofChars _

theorem isScalar_of_unhex {x : CodePoint} {n : Nat} (h : unhex x = some n) : x.isScalar = true := by
  cases x with
  | scalar c => rfl
  | surrogate u => cases h

theorem scalars_tokens {s : JsString} {ts : List Token} (h : tokens s = some ts) : Scalars ts ↔ WellFormed s := by
  fun_induction tokens s generalizing ts with
  | case1 =>
    obtain rfl := Option.some.inj h
    simp [Scalars, WellFormed]
  | case2 a b s x y hx hy ih =>
    obtain ⟨us, hus, rfl⟩ := Option.map_eq_some_iff.1 h
    rw [wellFormed_cons, wellFormed_cons, wellFormed_cons, ← ih hus]
    have hpercent : (CodePoint.scalar '%').isScalar = true := rfl
    simp [Scalars, hpercent, isScalar_of_unhex hx, isScalar_of_unhex hy]
  | case3 => cases h
  | case4 => cases h
  | case5 x s hx ih =>
    obtain ⟨us, hus, rfl⟩ := Option.map_eq_some_iff.1 h
    rw [wellFormed_cons, ← ih hus]
    simp [Scalars, or_imp, forall_and]

theorem wellFormed_decodeTokens {run : List UInt8} {ts : List Token} {t : JsString} (h : decodeTokens run ts = some t) :
    WellFormed t ↔ Scalars ts := by
  induction ts generalizing run t with
  | nil => simp [Scalars, wellFormed_text h]
  | cons tok ts ih =>
    cases tok with
    | plain x =>
      simp only [decodeTokens, Option.bind_eq_bind, Option.bind_eq_some_iff, Option.pure_def, Option.some.injEq] at h
      obtain ⟨s, hs, u, hu, rfl⟩ := h
      rw [wellFormed_append, wellFormed_cons, ih hu]
      simp [Scalars, wellFormed_text hs, or_imp, forall_and]
    | byte b =>
      rw [ih h]
      simp [Scalars]

/-- What is decoded has a lone surrogate only where the escaped string has one. -/
theorem wellFormed_decode {s t : JsString} (h : decodeURIComponent s = some t) : WellFormed t ↔ WellFormed s := by
  obtain ⟨ts, hts, ht⟩ := Option.bind_eq_some_iff.1 h
  rw [wellFormed_decodeTokens ht, scalars_tokens hts]

end Ploykit.Js

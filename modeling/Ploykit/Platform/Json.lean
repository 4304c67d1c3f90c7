import Mathlib.Algebra.Group.Int.Defs
import Mathlib.Data.List.AList

/-!
# JSON

Documents as `jsonb` stores them, the literals of numbers kept, and the decoders of
`encoding/json` for variables of the types `int`, `string` and `json.Number` and for maps.
A decoder leaves something in the variable also when it fails: an `int` that does not fit
stays zero, and a map gets the element all the same.
-/

namespace Ploykit

inductive Json where
  | null
  | bool (b : Bool)
  | number (literal : String)
  | string (s : String)
  | array (elements : List Json)
  | object (members : List (String × Json))

/-- `map[string]α` -/
abbrev GoMap (α : Type) := AList fun _ : String => α

/-! ## Integers -/

namespace Strconv

def parseDigits (digits : List Char) : Option Nat :=
  if digits ≠ [] ∧ digits.all Char.isDigit then some (Nat.ofDigitChars 10 digits 0) else none

def parseSigned : List Char → Option Int
  | '-' :: digits => (parseDigits digits).map fun n => -(n : Int)
  | '+' :: digits => (parseDigits digits).map Int.ofNat
  | digits => (parseDigits digits).map Int.ofNat

/-- The range of `int64`, and of `int`. -/
def IsInt64 (n : Int) : Prop := -2 ^ 63 ≤ n ∧ n < 2 ^ 63

instance (n : Int) : Decidable (IsInt64 n) := inferInstanceAs (Decidable (_ ∧ _))

/-- `strconv.ParseInt(s, 10, 64)` -/
def parseInt (s : String) : Option Int := (parseSigned s.toList).filter fun n => IsInt64 n

theorem parseDigits_toDigits (n : Nat) : parseDigits (Nat.toDigits 10 n) = some n := by
  have hdigits : Nat.toDigits 10 n ≠ [] ∧ (Nat.toDigits 10 n).all Char.isDigit := by
    refine ⟨Nat.toDigits_ne_nil, List.all_eq_true.2 fun c hc => ?_⟩
    exact Nat.isDigit_of_mem_toDigits (by decide) (by decide) hc
  rw [parseDigits, if_pos hdigits, Nat.ofDigitChars_ten_toDigits]

/-- Digits have no sign. -/
theorem parseSigned_toDigits (n : Nat) : parseSigned (Nat.toDigits 10 n) = some (n : Int) := by
  have hdigit : ∀ c ∈ Nat.toDigits 10 n, c.isDigit := fun c hc =>
    Nat.isDigit_of_mem_toDigits (by decide) (by decide) hc
  unfold parseSigned
  split
  · cases hdigit '-' (by simp [*])
  · cases hdigit '+' (by simp [*])
  · rw [parseDigits_toDigits]
    rfl

theorem parseSigned_repr (n : Int) : parseSigned n.repr.toList = some n := by
  cases n with
  | ofNat n =>
    rw [Int.repr, Nat.toList_repr]
    exact parseSigned_toDigits n
  | negSucc n =>
    have hneg : (Int.negSucc n).repr.toList = '-' :: Nat.toDigits 10 (n + 1) := by
      rw [Int.repr, String.toList_append, Nat.toList_repr]
      rfl
    rw [hneg, parseSigned, parseDigits_toDigits]
    rfl

/-- An integer is read back from its decimal digits. -/
theorem parseInt_repr {n : Int} (h : IsInt64 n) : parseInt n.repr = some n := by
  rw [parseInt, parseSigned_repr]
  exact Option.filter_eq_some_iff.2 ⟨rfl, decide_eq_true h⟩

theorem parseInt_isInt64 {s : String} {n : Int} (h : parseInt s = some n) : IsInt64 n :=
  of_decide_eq_true (Option.filter_eq_some_iff.1 h).2

end Strconv

/-! ## Decoding -/

namespace Json

open Strconv

/-- `isValidNumber`, after the sign: an integer part without leading zeros, a fraction and an exponent. -/
def digitsValid (s : List Char) : Bool :=
  let integer := match s with
    | '0' :: rest => some rest
    | c :: rest => if c.isDigit then some (rest.dropWhile Char.isDigit) else none
    | [] => none
  let fraction (s : List Char) := match s with
    | '.' :: c :: rest => if c.isDigit then rest.dropWhile Char.isDigit else s
    | _ => s
  let exponent (s : List Char) := match s with
    | e :: c :: rest =>
      if e ∉ ['e', 'E'] then s
      else if c ∉ ['+', '-'] then (c :: rest).dropWhile Char.isDigit
      -- a sign with nothing after it
      else if rest = [] then s
      else rest.dropWhile Char.isDigit
    | _ => s
  integer.any fun s => exponent (fraction s) = []

def isValidNumber (s : String) : Bool :=
  match s.toList with
  | '-' :: rest => digitsValid rest
  | rest => digitsValid rest

/-- A zero variable of type `int` after it has been decoded into, and whether that has failed. -/
def decodeInt : Json → Int × Bool
  | null => (0, false)
  | number literal => ((parseInt literal).getD 0, (parseInt literal).isNone)
  | _ => (0, true)

def decodeString : Json → String × Bool
  | null => ("", false)
  | string s => (s, false)
  | _ => ("", true)

/-- A `json.Number`, which holds the literal of a number, or a string that is one. -/
def decodeNumber : Json → String × Bool
  | null => ("", false)
  | number literal => (literal, false)
  | string s => if isValidNumber s then (s, false) else ("", true)
  | _ => ("", true)

/-- A `json.RawMessage` -/
def decodeRaw (v : Json) : Json × Bool := (v, false)

variable {α : Type}

/-- An empty map after a document has been decoded into it, and whether that has failed. A member replaces
those of its key before it. A `json.Number` that is no number stops the decoding, which leaves a map that
nothing reads. A nil map is an empty one here. -/
def unmarshalMap (decode : Json → α × Bool) : Json → GoMap α × Bool
  | null => (∅, false)
  | object members =>
    ((members.reverse.map fun m => ⟨m.1, (decode m.2).1⟩).toAList, members.any fun m => (decode m.2).2)
  | _ => (∅, true)

/-- The members of a document. -/
def members (doc : Json) : GoMap Json := (unmarshalMap decodeRaw doc).1

/-- `json.Marshal` of a map of integers. -/
def marshalInts (m : GoMap Int) : Json := .object (m.entries.map fun e => (e.1, .number e.2.repr))

variable {decode : Json → α × Bool} {doc v : Json} {k : String}

/-- An element is what its member decodes to. -/
theorem lookup_unmarshalMap : (unmarshalMap decode doc).1.lookup k = (doc.members.lookup k).map fun v => (decode v).1 := by
  cases doc with
  | object members =>
    simp only [Json.members, unmarshalMap, AList.lookup_to_alist, decodeRaw]
    rw [← List.dlookup_map₂ (f := fun _ v => (decode v).1), List.map_map]
    rfl
  | _ => rfl

theorem mem_unmarshalMap : k ∈ (unmarshalMap decode doc).1 ↔ k ∈ doc.members := by
  rw [← AList.lookup_isSome, lookup_unmarshalMap, Option.isSome_map, AList.lookup_isSome]

theorem decodeInt_isInt64 (v : Json) : IsInt64 v.decodeInt.1 := by
  have hzero : IsInt64 0 := by decide
  cases v with
  | number literal =>
    simp only [decodeInt]
    cases hn : parseInt literal with
    | none => exact hzero
    | some n => exact parseInt_isInt64 hn
  | _ => exact hzero

theorem unmarshalMap_marshalInts (m : GoMap Int) : (unmarshalMap decodeRaw (marshalInts m)).2 = false :=
  List.any_eq_false.2 fun _ _ => Bool.false_ne_true

theorem lookup_marshalInts (m : GoMap Int) : (marshalInts m).members.lookup k = (m.lookup k).map fun n => .number n.repr := by
  let literals : List (Sigma fun _ : String => Json) := m.entries.map (.map id fun _ n => .number n.repr)
  have hmembers : (marshalInts m).members = literals.reverse.toAList := by
    simp only [members, marshalInts, unmarshalMap, List.map_reverse, List.map_map]
    rfl
  have hnodup : literals.NodupKeys := m.nodupKeys.map₂ _ _
  rw [hmembers, AList.lookup_to_alist, ← List.perm_dlookup k hnodup (List.reverse_perm _).symm]
  exact List.dlookup_map₂ k

end Json

end Ploykit

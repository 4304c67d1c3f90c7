import Ploykit.Platform.Net

/-!
# Arrays of strings

`json.Unmarshal` of a text into `[]string`, which fails for texts that are no JSON and for documents of another type: a document is
`null` or an array of strings and nulls.
-/

namespace Ploykit.JsonStrings

def isWs (c : Char) : Bool := c = ' ' || c = '\t' || c = '\n' || c = '\r'

/-- A character of a string literal, or the unit of an escape. -/
inductive Piece where
  | plain (c : Char)
  | unit (u : Nat)

def escaped (c : Char) : Option Char :=
  if c = '"' || c = '\\' || c = '/' then some c
  else if c = 'b' then some '\x08'
  else if c = 'f' then some '\x0c'
  else if c = 'n' then some '\n'
  else if c = 'r' then some '\r'
  else if c = 't' then some '\t'
  else none

/-- The pieces of a literal after its opening quote, and what comes after it. -/
def pieces : Text → Option (List Piece × Text)
  | [] => none
  | '"' :: s => some ([], s)
  | '\\' :: 'u' :: a :: b :: c :: d :: s =>
    if [a, b, c, d].all Net.isHex then (pieces s).map fun r => (.unit (Net.number 16 [a, b, c, d]) :: r.1, r.2) else none
  | '\\' :: c :: s =>
    match escaped c with
    | some d => (pieces s).map fun r => (.plain d :: r.1, r.2)
    | none => none
  | c :: s => if c.val < 0x20 ∨ c = '\\' then none else (pieces s).map fun r => (.plain c :: r.1, r.2)

/-- Surrogates that are a pair are one character, and others U+FFFD. -/
def decode : List Piece → Text
  | [] => []
  | .unit u :: .unit v :: ps =>
    if 0xD800 ≤ u ∧ u < 0xDC00 ∧ 0xDC00 ≤ v ∧ v < 0xE000 then
      Char.ofNat (0x10000 + (u - 0xD800) * 0x400 + (v - 0xDC00)) :: decode ps
    else (if 0xD800 ≤ u ∧ u < 0xE000 then '\uFFFD' else Char.ofNat u) :: decode (.unit v :: ps)
  | .unit u :: ps => (if 0xD800 ≤ u ∧ u < 0xE000 then '\uFFFD' else Char.ofNat u) :: decode ps
  | .plain c :: ps => c :: decode ps

/-- A null leaves the element empty. -/
def element : Text → Option (Text × Text)
  | '"' :: s => (pieces s).map fun r => (decode r.1, r.2)
  | 'n' :: 'u' :: 'l' :: 'l' :: s => some ([], s)
  | _ => none

/-- The elements up to the closing bracket, and what comes after it. There is one at most for each character. -/
def elements : Nat → Text → Option (List Text × Text)
  | 0, _ => none
  | n + 1, s => do
    let (t, s) ← element (s.dropWhile isWs)
    match s.dropWhile isWs with
    | ']' :: s => return ([t], s)
    | ',' :: s => do
      let (ts, s) ← elements n s
      return (t :: ts, s)
    | _ => none

/-- The document without the white space around it. -/
def document : Text → Option (List Text)
  | 'n' :: 'u' :: 'l' :: 'l' :: s => if s = [] then some [] else none
  | '[' :: s =>
    if s.dropWhile isWs = [']'] then some []
    else do
      let (ts, s) ← elements s.length s
      if s = [] then return ts else none
  | _ => none

def Unmarshal (s : Text) : Option (List Text) := document (Text.trim isWs s)

example : Unmarshal " [\"/realtime\", \"\\u002Fa\"] ".toList = some ["/realtime".toList, "/a".toList] := by decide

/-! ## Spaces around a document -/

variable {s rest : Text}

theorem pieces_suffix {ps : List Piece} (h : pieces s = some (ps, rest)) : rest <:+ s := by
  fun_induction pieces s generalizing ps rest with
  | case1 => cases h
  | case2 s =>
    cases h
    exact List.suffix_cons _ _
  | case3 a b c d s hhex ih =>
    obtain ⟨r, hr, hpair⟩ := Option.map_eq_some_iff.1 h
    cases hpair
    exact (ih hr).trans ⟨['\\', 'u', a, b, c, d], rfl⟩
  | case4 => cases h
  | case5 c s hno d hd ih =>
    obtain ⟨r, hr, hpair⟩ := Option.map_eq_some_iff.1 h
    cases hpair
    exact (ih hr).trans ⟨['\\', c], rfl⟩
  | case6 => cases h
  | case7 => cases h
  | case8 c s =>
    rename_i ih
    obtain ⟨r, hr, hpair⟩ := Option.map_eq_some_iff.1 h
    cases hpair
    exact (ih hr).trans (List.suffix_cons _ _)

theorem element_suffix {t : Text} (h : element s = some (t, rest)) : rest <:+ s := by
  unfold element at h
  split at h
  · rename_i s
    obtain ⟨r, hr, hpair⟩ := Option.map_eq_some_iff.1 h
    cases hpair
    exact (pieces_suffix hr).trans (List.suffix_cons _ _)
  · cases h
    exact ⟨['n', 'u', 'l', 'l'], rfl⟩
  · cases h

/-- The elements end at a closing bracket. -/
theorem elements_suffix {n : Nat} {ts : List Text} (h : elements n s = some (ts, rest)) : ']' :: rest <:+ s := by
  induction n generalizing s ts rest with
  | zero => cases h
  | succ n ih =>
    obtain ⟨⟨t, u⟩, ht, h⟩ := Option.bind_eq_some_iff.1 h
    have hu : u.dropWhile isWs <:+ s :=
      (List.dropWhile_suffix isWs).trans ((element_suffix ht).trans (List.dropWhile_suffix isWs))
    simp only at h
    split at h
    · rename_i v hv
      cases h
      exact hv ▸ hu
    · rename_i v hv
      obtain ⟨⟨us, w⟩, hw, h⟩ := Option.bind_eq_some_iff.1 h
      cases h
      exact (ih hw).trans ((List.suffix_cons ',' v).trans (hv ▸ hu))
    · cases h

/-- A document begins and ends with characters that are no spaces. -/
theorem trimmed_document {ts : List Text} (h : document s = some ts) : Text.Trimmed Strings.isSpace s := by
  unfold document at h
  split at h
  · rename_i s
    obtain rfl : s = [] := by
      by_contra hne
      rw [if_neg hne] at h
      cases h
    exact ⟨fun c hc => Option.some.inj hc ▸ (by decide : Strings.isSpace 'n' = false),
      fun c hc => Option.some.inj hc ▸ (by decide : Strings.isSpace 'l' = false)⟩
  · rename_i s
    have hend : [']'] <:+ s := by
      split at h
      · rename_i hclose
        exact hclose ▸ List.dropWhile_suffix isWs
      · obtain ⟨⟨us, rest⟩, hus, hrest⟩ := Option.bind_eq_some_iff.1 h
        obtain rfl : rest = [] := by
          by_contra hne
          simp [hne] at hrest
        exact elements_suffix hus
    obtain ⟨t, rfl⟩ := hend
    refine ⟨fun c hc => Option.some.inj hc ▸ (by decide : Strings.isSpace '[' = false), fun c hc => ?_⟩
    rw [← List.cons_append, List.getLast?_append] at hc
    exact Option.some.inj hc ▸ (by decide : Strings.isSpace ']' = false)
  · cases h

theorem isSpace_of_isWs {c : Char} (h : isWs c = true) : Strings.isSpace c = true := by
  simp only [isWs, Bool.or_eq_true, decide_eq_true_eq] at h
  rcases h with ((rfl | rfl) | rfl) | rfl
  all_goals decide

/-- Trimming spaces of Unicode leaves an accepted document as it is. -/
theorem unmarshal_trimSpace {ts : List Text} (h : Unmarshal s = some ts) : Unmarshal (Text.TrimSpace s) = some ts := by
  obtain ⟨l, r, hs, hl, hr⟩ := Text.exists_trim isWs s
  have htrim : Text.TrimSpace s = Text.trim isWs s := by
    conv => lhs; rw [hs]
    exact Text.trim_padded (fun c hc => isSpace_of_isWs (hl c hc)) (trimmed_document h) fun c hc => isSpace_of_isWs (hr c hc)
  rw [htrim, Unmarshal, Text.trim_trim]
  exact h

end Ploykit.JsonStrings

import Mathlib.Data.List.DropRight

/-!
# Strings as bytes

Names of files, storage keys and request paths may be any bytes. `shouldEscape`, `pathEscape`
and `pathUnescape` are those of `net/url` for the elements of a path, `fields` is `strings.Fields` with
the spaces of Unicode in UTF-8. Of `path` there are `Base`, `Ext`, and `Clean` for a path that begins with a slash.
-/

namespace Ploykit

/-- A string of Go, byte by byte. -/
abbrev GoString := List UInt8

instance : LawfulBEq GoString := inferInstance

namespace GoString

/-- A literal of ASCII characters. -/
def lit (s : String) : GoString := s.toList.map Char.toUInt8

def slash : UInt8 := '/'.toUInt8

def trimSuffix (s suf : GoString) : GoString := if suf <:+ s then s.take (s.length - suf.length) else s

theorem trimSuffix_append (s suf : GoString) : trimSuffix (s ++ suf) suf = s := by
  rw [trimSuffix, if_pos (List.suffix_append _ _)]
  simp

/-- `strings.Split(s, "/")` -/
def elements (s : GoString) : List GoString := s.splitOn slash

/-- `strings.Join(elems, "/")` -/
def join (elems : List GoString) : GoString := [slash].intercalate elems

/-! ## Elements -/

section elements

variable {s t : GoString}

theorem elements_ne_nil : s.elements ≠ [] := List.splitOn_ne_nil _ _

@[simp] theorem join_elements : join s.elements = s := List.intercalate_splitOn ..

theorem elements_inj (h : s.elements = t.elements) : s = t := by
  rw [← join_elements (s := s), h, join_elements]

theorem elements_join {l : List GoString} (hslash : ∀ e ∈ l, slash ∉ e) (hne : l ≠ []) : (join l).elements = l :=
  List.splitOn_intercalate slash hslash hne

theorem elements_of_notMem (h : slash ∉ s) : s.elements = [s] := List.splitOn_eq_singleton h

theorem elements_cons (c : UInt8) (s : GoString) :
    elements (c :: s) = if c = slash then [] :: s.elements else s.elements.modifyHead (List.cons c) := by
  simp [elements, List.splitOn_cons_eq_if_modifyHead]

theorem elements_append_slash (s t : GoString) : elements (s ++ slash :: t) = s.elements ++ t.elements :=
  List.splitOn_append_cons_self s t

/-- No element has a separator in it. -/
theorem slash_notMem_elements : ∀ e ∈ elements s, slash ∉ e := by
  induction s with
  | nil => simp [elements]
  | cons c s ih =>
    rw [elements_cons]
    split
    · simpa using ih
    · rename_i hc
      cases hs : elements s with
      | nil => simp
      | cons e es =>
        rw [hs, List.forall_mem_cons] at ih
        simpa [Ne.symm hc] using ih

theorem join_concat (l : List GoString) (e t : GoString) : join (l ++ [e ++ t]) = join (l ++ [e]) ++ t := by
  induction l with
  | nil => simp [join]
  | cons a l ih =>
    have hcons : ∀ e', join (a :: (l ++ [e'])) = a ++ [slash] ++ join (l ++ [e']) := fun e' =>
      List.intercalate_cons_of_ne_nil (by simp)
    rw [List.cons_append, List.cons_append, hcons, hcons, ih]
    simp only [List.append_assoc]

theorem mem_join {l : List GoString} {c : UInt8} (h : c ∈ join l) : c = slash ∨ ∃ e ∈ l, c ∈ e := by
  induction l with
  | nil => cases h
  | cons a l ih =>
    cases l with
    | nil => exact .inr ⟨a, List.mem_cons_self, by simpa [join] using h⟩
    | cons b l =>
      rw [join, List.intercalate_cons_cons, List.mem_append, List.mem_append, List.mem_singleton] at h
      rcases h with (h | h) | h
      · exact .inr ⟨a, List.mem_cons_self, h⟩
      · exact .inl h
      · exact (ih h).imp_right fun ⟨e, he, hc⟩ => ⟨e, List.mem_cons_of_mem a he, hc⟩

/-- What has no separator goes to the last element. -/
theorem elements_append (h : slash ∉ t) : ∃ l e, s.elements = l ++ [e] ∧ (s ++ t).elements = l ++ [e ++ t] := by
  obtain ⟨l, e, hs⟩ := (List.eq_nil_or_concat' s.elements).resolve_left elements_ne_nil
  have hparts : ∀ x ∈ l ++ [e], slash ∉ x := fun x hx => slash_notMem_elements x (hs ▸ hx)
  have hjoin : join (l ++ [e ++ t]) = s ++ t := by rw [join_concat, ← hs, join_elements]
  refine ⟨l, e, hs, ?_⟩
  rw [← hjoin]
  refine elements_join (fun x hx => ?_) (by simp)
  rcases List.mem_append.1 hx with hx | hx
  · exact hparts x (List.mem_append_left _ hx)
  · rw [List.mem_singleton.1 hx, List.mem_append, not_or]
    exact ⟨hparts e (by simp), h⟩

end elements

/-! ## Path escapes -/

def isAlnum (c : UInt8) : Bool :=
  ('a'.toUInt8 ≤ c && c ≤ 'z'.toUInt8) || ('A'.toUInt8 ≤ c && c ≤ 'Z'.toUInt8) || ('0'.toUInt8 ≤ c && c ≤ '9'.toUInt8)

/-- `shouldEscape` for the elements of a path. -/
def shouldEscape (c : UInt8) : Bool :=
  !(isAlnum c || (lit "-_.~$&+:=@").contains c)

/-- A digit of `upperhex`. -/
def upperHex (n : UInt8) : UInt8 := if n < 10 then '0'.toUInt8 + n else 'A'.toUInt8 + (n - 10)

def percent : UInt8 := '%'.toUInt8

def escapeByte (c : UInt8) : GoString := if shouldEscape c then [percent, upperHex (c / 16), upperHex (c % 16)] else [c]

/-- `url.PathEscape` -/
def pathEscape (s : GoString) : GoString := s.flatMap escapeByte

/-- `ishex` and `unhex` -/
def unhex (c : UInt8) : Option UInt8 :=
  if '0'.toUInt8 ≤ c && c ≤ '9'.toUInt8 then some (c - '0'.toUInt8)
  else if 'a'.toUInt8 ≤ c && c ≤ 'f'.toUInt8 then some (c - 'a'.toUInt8 + 10)
  else if 'A'.toUInt8 ≤ c && c ≤ 'F'.toUInt8 then some (c - 'A'.toUInt8 + 10)
  else none

/-- `url.PathUnescape`, which fails where a percent sign is not followed by two digits. -/
def pathUnescape : GoString → Option GoString
  | [] => some []
  | c :: s =>
    if c = percent then
      match s with
      | h :: l :: s =>
        match unhex h, unhex l with
        | some h, some l => (pathUnescape s).map ((h * 16 + l) :: ·)
        | _, _ => none
      | _ => none
    else (pathUnescape s).map (c :: ·)

/-- `strings.ReplaceAll(s, "%2F", "%252F")` -/
def keepEncodedSlashes : GoString → GoString
  | c :: d :: e :: t =>
    if c = percent ∧ d = '2'.toUInt8 ∧ e = 'F'.toUInt8 then lit "%252F" ++ keepEncodedSlashes t
    else c :: keepEncodedSlashes (d :: e :: t)
  | s => s

section escapes

variable {s t : GoString} {c : UInt8}

/-- The byte stands for itself in a path. -/
def Plain (c : UInt8) : Prop := c = slash ∨ shouldEscape c = false

instance (c : UInt8) : Decidable (Plain c) := inferInstanceAs (Decidable (_ ∨ _))

theorem percent_notMem (h : ∀ c ∈ s, Plain c) : percent ∉ s := fun hc => absurd (h _ hc) (by decide)

theorem pathUnescape_self (h : percent ∉ s) : pathUnescape s = some s := by
  induction s with
  | nil => rfl
  | cons c s ih =>
    rw [List.mem_cons, not_or] at h
    unfold pathUnescape
    rw [if_neg (Ne.symm h.1), ih h.2]
    rfl

theorem keepEncodedSlashes_self (h : percent ∉ s) : keepEncodedSlashes s = s := by
  fun_induction keepEncodedSlashes s with
  | case1 c d e t hc _ => exact absurd (hc.1 ▸ List.mem_cons_self) h
  | case2 c d e t hc ih => rw [ih fun hmem => h (List.mem_cons_of_mem c hmem)]
  | case3 s _ => rfl

end escapes

/-! ## Sorting -/

/-- `sort.Slice` by a key. -/
theorem pairwise_mergeSort {α : Type} (key : α → GoString) (l : List α) :
    (l.mergeSort fun a b => decide (key a ≤ key b)).Pairwise fun a b => key a ≤ key b := by
  have htotal : ∀ a b : α, decide (key a ≤ key b) || decide (key b ≤ key a) :=
    fun a b => by simpa using List.le_total (key a) (key b)
  have htrans : ∀ a b c : α, decide (key a ≤ key b) → decide (key b ≤ key c) → decide (key a ≤ key c) :=
    fun _ _ _ hab hbc => decide_eq_true (List.le_trans (of_decide_eq_true hab) (of_decide_eq_true hbc))
  exact (List.pairwise_mergeSort htrans htotal l).imp fun h => of_decide_eq_true h

/-! ## Words -/

/-- How many bytes the space at the start of a text has, and zero if there is none. -/
def spaceWidth : GoString → Nat
  | [] => 0
  | c :: s =>
    if (0x09 ≤ c ∧ c ≤ 0x0D) ∨ c = 0x20 then 1
    else
      let two := [c] ++ s.take 1
      let three := [c] ++ s.take 2
      if two = [0xC2, 0x85] ∨ two = [0xC2, 0xA0] then 2
      else if three = [0xE1, 0x9A, 0x80] ∨ (three.take 2 = [0xE2, 0x80] ∧ three.getLast?.any fun d => 0x80 ≤ d ∧ d ≤ 0x8A) ∧ three.length = 3 ∨
          three = [0xE2, 0x80, 0xA8] ∨ three = [0xE2, 0x80, 0xA9] ∨ three = [0xE2, 0x80, 0xAF] ∨ three = [0xE2, 0x81, 0x9F] ∨
          three = [0xE3, 0x80, 0x80] then 3
      else 0

/-- The scan with the bytes of the space that are left and the word so far. -/
def fieldsFrom : Nat → GoString → GoString → List GoString
  | _, word, [] => if word = [] then [] else [word]
  | skip + 1, word, _ :: s => fieldsFrom skip word s
  | 0, word, c :: s =>
    match spaceWidth (c :: s) with
    | 0 => fieldsFrom 0 (word ++ [c]) s
    | w + 1 => (if word = [] then [] else [word]) ++ fieldsFrom w [] s

/-- `strings.Fields` -/
def fields (s : GoString) : List GoString := fieldsFrom 0 [] s

example : fields (lit " v1,a\tv1,b ") = [lit "v1,a", lit "v1,b"] := by decide

def lowerByte (c : UInt8) : UInt8 := if 'A'.toUInt8 ≤ c ∧ c ≤ 'Z'.toUInt8 then c + 32 else c

end GoString

namespace Path

open GoString

/-- `path.Base` -/
def base (p : GoString) : GoString :=
  if p = [] then lit "." else
    let stripped := p.rdropWhile (· = slash)
    if stripped = [] then lit "/" else stripped.rtakeWhile (· ≠ slash)

/-- `path.Ext`: from the last dot of the last element. -/
def ext (p : GoString) : GoString :=
  let dot : UInt8 := '.'.toUInt8
  let last := p.rtakeWhile (· ≠ slash)
  if dot ∈ last then dot :: last.rtakeWhile (· ≠ dot) else []

/-- The elements that stay, of those in this order. -/
def resolve (elems : List GoString) : List GoString :=
  elems.foldl (fun kept e => if e = [] ∨ e = lit "." then kept else if e = lit ".." then kept.dropLast else kept ++ [e]) []

/-- `path.Clean` of a slash and the path. -/
def clean (p : GoString) : GoString := slash :: join (resolve p.elements)

example : (base (lit "/assets/app-4f9a2b1c.js"), ext (lit "/assets.d/app"), clean (lit "a//../b/./c")) =
    (lit "app-4f9a2b1c.js", [], lit "/b/c") := by decide

end Path

end Ploykit

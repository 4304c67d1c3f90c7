import Mathlib.Data.List.Sort
import Ploykit.Lib.Html
import Ploykit.Platform.Json

/-!
# Head markup

`renderHeadEntry` and `renderTagAttrs` of `platform/renderx/template.go`, and the lines
that `RenderDocument` makes of them. The markup is read by `Ploykit.Lib.Html`: names
without regard to letter case, the first of two attributes with one name, and elements
that have no end tag. How elements nest in a document is left out.
-/

namespace Ploykit.Renderx.Head

open Lib

/-! ## Rendering -/

structure HeadEntry where
  tag : String
  attrs : GoMap String
  children : String

inductive Err where
  | invalidTag (tag : String)
  | invalidAttr (name tag : String)
  deriving DecidableEq, Repr

def escapeChar (c : Char) : List Char :=
  if c = '&' then "&amp;".toList
  else if c = '\'' then "&#39;".toList
  else if c = '<' then "&lt;".toList
  else if c = '>' then "&gt;".toList
  else if c = '"' then "&#34;".toList
  else [c]

def escapeHTML (s : String) : String := String.ofList (s.toList.flatMap escapeChar)

/-- `[a-zA-Z]`, then characters that satisfy `P`. -/
def isName (P : Char → Bool) : List Char → Bool
  | [] => false
  | c :: cs => c.isAlpha && cs.all P

/-- `^[a-zA-Z][a-zA-Z0-9-]*$` -/
def tagRE (s : String) : Bool := isName (fun c => c.isAlphanum || c = '-') s.toList

/-- `^[a-zA-Z][a-zA-Z0-9:._-]*$` -/
def attrRE (s : String) : Bool := isName (fun c => c.isAlphanum || c = ':' || c = '.' || c = '_' || c = '-') s.toList

def denyTags : List String := ["script", "iframe", "object", "embed", "frame", "applet", "base"]

/-- `strings.ToLower`, of names whose letters are ASCII. -/
def toLower (s : String) : String := String.ofList (s.toList.map Char.toLower)

def denyAttr (name : String) : Bool :=
  let n := toLower name
  if "on".toList.isPrefixOf n.toList then true else n = "http-equiv"

def voidElements : List String :=
  ["area", "base", "br", "col", "embed", "hr", "img", "input", "link", "meta", "param", "source", "track", "wbr"]

/-- The attributes in the order of their names. -/
def sorted (attrs : GoMap String) : List (String × String) :=
  (attrs.keys.insertionSort (· ≤ ·)).map fun k => (k, (attrs.lookup k).getD "")

/-- The first name of the map that is refused. -/
def refused (attrs : GoMap String) : Option String := attrs.keys.find? fun k => !attrRE k || denyAttr k

def attrMarkup (a : String × String) : String := " " ++ a.1 ++ "=\"" ++ escapeHTML a.2 ++ "\""

def renderAttrs (attrs : GoMap String) : String := String.join ((sorted attrs).map attrMarkup)

def renderTagAttrs (attrs : GoMap String) (tag : String) : Except Err String :=
  match refused attrs with
  | some k => .error (.invalidAttr k tag)
  | none => .ok (renderAttrs attrs)

def renderHeadEntry (e : HeadEntry) : Except Err String :=
  if ¬ tagRE e.tag ∨ e.tag ∈ denyTags then .error (.invalidTag e.tag)
  else match refused e.attrs with
    | some k => .error (.invalidAttr k e.tag)
    | none =>
      let start := "<" ++ e.tag ++ renderAttrs e.attrs ++ ">"
      if e.tag ∈ voidElements then .ok start
      else .ok (start ++ escapeHTML e.children ++ "</" ++ e.tag ++ ">")

/-- The lines of the entries in a document. -/
def renderHead : List HeadEntry → Except Err String
  | [] => .ok ""
  | e :: es => do
    let s ← renderHeadEntry e
    let rest ← renderHead es
    return "  " ++ s ++ "\n" ++ rest

def renderHTMLTag (lang : String) (attrs : GoMap String) : Except Err String := do
  let htmlAttrs ← renderTagAttrs attrs "html"
  return "<html lang=\"" ++ escapeHTML lang ++ "\"" ++ htmlAttrs ++ ">"

def renderBodyTag (attrs : GoMap String) : Except Err String := do
  let bodyAttrs ← renderTagAttrs attrs "body"
  return "<body" ++ bodyAttrs ++ ">"

/-! ## The characters of the markup -/

section markup

variable {e : HeadEntry} {s : String} {attrs : GoMap String}

def escaped (s : List Char) : List Char := s.flatMap escapeChar

/-- An attribute, as characters, with its value escaped. -/
def charAttr (a : String × String) : Html.Name × List Char := (a.1.toList, escaped a.2.toList)

def charAttrs (attrs : GoMap String) : Html.Attrs := (sorted attrs).map charAttr

theorem toList_escapeHTML (s : String) : (escapeHTML s).toList = escaped s.toList := String.toList_ofList

theorem toList_renderAttrs (attrs : GoMap String) : (renderAttrs attrs).toList = (charAttrs attrs).flatMap Html.attrText := by
  rw [renderAttrs, charAttrs, String.toList_join, List.flatMap_map, List.flatMap_map]
  refine List.flatMap_congr fun a _ => ?_
  simp [attrMarkup, Html.attrText, charAttr, toList_escapeHTML]

/-- What has been accepted, and its markup. -/
theorem renderHeadEntry_ok (h : renderHeadEntry e = .ok s) :
    tagRE e.tag = true ∧ e.tag ∉ denyTags ∧ refused e.attrs = none ∧
      s.toList = Html.startText e.tag.toList (charAttrs e.attrs) ++
        if e.tag ∈ voidElements then [] else escaped e.children.toList ++ Html.stopText e.tag.toList := by
  unfold renderHeadEntry at h
  split at h
  · cases h
  · rename_i htag
    rw [not_or, not_not] at htag
    split at h
    · cases h
    · rename_i hrefused
      refine ⟨htag.1, htag.2, hrefused, ?_⟩
      dsimp only at h
      split at h
      · rename_i hvoid
        cases h
        simp [Html.startText, toList_renderAttrs, hvoid]
      · rename_i hvoid
        cases h
        simp [Html.startText, Html.stopText, toList_renderAttrs, toList_escapeHTML, hvoid]

theorem refused_eq_none (h : refused attrs = none) {a : String × String} (ha : a ∈ sorted attrs) : attrRE a.1 = true ∧ denyAttr a.1 = false := by
  obtain ⟨k, hk, rfl⟩ := List.mem_map.1 ha
  have hno := List.find?_eq_none.1 h k ((List.mem_insertionSort _).1 hk)
  simpa using hno

end markup

/-! ## Names and values -/

section chars

variable {c : Char} {s : List Char}

theorem isName_cons {P : Char → Bool} (h : isName P s = true) : ∃ c cs, s = c :: cs ∧ c.isAlpha = true ∧ ∀ d ∈ cs, P d = true := by
  cases s with
  | nil => cases h
  | cons c cs =>
    obtain ⟨hc, hcs⟩ := Bool.and_eq_true_iff.1 h
    exact ⟨c, cs, rfl, hc, fun d hd => List.all_eq_true.1 hcs d hd⟩

/-- A character that is no letter, digit or dash. -/
theorem ne_of_isAlphanum {d : Char} (h : c.isAlphanum = true) (hd : d.isAlphanum = false) : c ≠ d := by
  rintro rfl
  rw [h] at hd
  cases hd

theorem plain_of_isAlphanum (h : c.isAlphanum = true) : Html.Plain c := by
  have hne : ∀ {d : Char}, d.isAlphanum = false → c ≠ d := ne_of_isAlphanum h
  refine ⟨?_, hne (by decide), hne (by decide), hne (by decide), hne (by decide), hne (by decide)⟩
  have htab : c ≠ '\t' := hne (by decide)
  have hline : c ≠ '\n' := hne (by decide)
  have hfeed : c ≠ '\x0c' := hne (by decide)
  have hblank : c ≠ ' ' := hne (by decide)
  simp [Html.isSpace, htab, hline, hfeed, hblank]

theorem isAlphanum_of_isAlpha (h : c.isAlpha = true) : c.isAlphanum = true := by
  rw [Char.isAlphanum, h]
  rfl

theorem plain_tagChar (h : (c.isAlphanum || c = '-') = true) : Html.Plain c := by
  rcases Bool.or_eq_true_iff.1 h with h | h
  · exact plain_of_isAlphanum h
  · rw [of_decide_eq_true h]
    exact ⟨by decide, by decide, by decide, by decide, by decide, by decide⟩

theorem plain_attrChar (h : (c.isAlphanum || c = ':' || c = '.' || c = '_' || c = '-') = true) : Html.Plain c := by
  simp only [Bool.or_eq_true, decide_eq_true_eq] at h
  rcases h with (((h | rfl) | rfl) | rfl) | rfl
  · exact plain_of_isAlphanum h
  · exact ⟨by decide, by decide, by decide, by decide, by decide, by decide⟩
  · exact ⟨by decide, by decide, by decide, by decide, by decide, by decide⟩
  · exact ⟨by decide, by decide, by decide, by decide, by decide, by decide⟩
  · exact ⟨by decide, by decide, by decide, by decide, by decide, by decide⟩

/-- The escape of a character is the character, or has none of the characters of the syntax. -/
theorem escapeChar_cases (c : Char) : (escapeChar c = [c] ∧ c ≠ '&' ∧ c ≠ '\'' ∧ c ≠ '<' ∧ c ≠ '>' ∧ c ≠ '"') ∨
    (c = '&' ∧ escapeChar c = "&amp;".toList) ∨ (c = '\'' ∧ escapeChar c = "&#39;".toList) ∨ (c = '<' ∧ escapeChar c = "&lt;".toList) ∨
    (c = '>' ∧ escapeChar c = "&gt;".toList) ∨ (c = '"' ∧ escapeChar c = "&#34;".toList) := by
  unfold escapeChar
  by_cases h₁ : c = '&'
  · exact .inr (.inl ⟨h₁, if_pos h₁⟩)
  by_cases h₂ : c = '\''
  · exact .inr (.inr (.inl ⟨h₂, by rw [if_neg h₁, if_pos h₂]⟩))
  by_cases h₃ : c = '<'
  · exact .inr (.inr (.inr (.inl ⟨h₃, by rw [if_neg h₁, if_neg h₂, if_pos h₃]⟩)))
  by_cases h₄ : c = '>'
  · exact .inr (.inr (.inr (.inr (.inl ⟨h₄, by rw [if_neg h₁, if_neg h₂, if_neg h₃, if_pos h₄]⟩))))
  by_cases h₅ : c = '"'
  · exact .inr (.inr (.inr (.inr (.inr ⟨h₅, by rw [if_neg h₁, if_neg h₂, if_neg h₃, if_neg h₄, if_pos h₅]⟩))))
  · exact .inl ⟨by rw [if_neg h₁, if_neg h₂, if_neg h₃, if_neg h₄, if_neg h₅], h₁, h₂, h₃, h₄, h₅⟩

/-- No escape has a character that only the syntax has. -/
theorem notMem_escapeChar {d : Char} (hd : d = '<' ∨ d = '"') (c : Char) : d ∉ escapeChar c := by
  rcases escapeChar_cases c with ⟨h, -, -, hlt, -, hquote⟩ | ⟨-, h⟩ | ⟨-, h⟩ | ⟨-, h⟩ | ⟨-, h⟩ | ⟨-, h⟩
  · rw [h, List.mem_singleton]
    rcases hd with rfl | rfl
    · exact Ne.symm hlt
    · exact Ne.symm hquote
  all_goals
    rw [h]
    rcases hd with rfl | rfl <;> decide

theorem notMem_escaped {d : Char} (hd : d = '<' ∨ d = '"') (s : List Char) : d ∉ escaped s := by
  intro hmem
  obtain ⟨c, -, hc⟩ := List.mem_flatMap.1 hmem
  exact notMem_escapeChar hd c hc

/-- What is escaped is decoded to what it was. -/
theorem decode_escaped (s : List Char) : Html.decode (escaped s) = s := by
  induction s with
  | nil => rfl
  | cons c s ih =>
    rw [escaped, List.flatMap_cons]
    rcases escapeChar_cases c with ⟨h, hamp, -⟩ | ⟨rfl, h⟩ | ⟨rfl, h⟩ | ⟨rfl, h⟩ | ⟨rfl, h⟩ | ⟨rfl, h⟩
    · rw [h]
      exact (Html.decode_cons hamp _).trans (congrArg _ ih)
    all_goals
      rw [h]
      exact congrArg _ ih

theorem notMem_escapeChar_return (h : c ≠ '\r') : '\r' ∉ escapeChar c := by
  rcases escapeChar_cases c with ⟨h', -⟩ | ⟨-, h'⟩ | ⟨-, h'⟩ | ⟨-, h'⟩ | ⟨-, h'⟩ | ⟨-, h'⟩
  · rw [h', List.mem_singleton]
    exact Ne.symm h
  all_goals
    rw [h']
    decide

theorem escaped_newline {s' : List Char} (h : escaped s = '\n' :: s') : ∃ s'', s = '\n' :: s'' := by
  cases s with
  | nil => cases h
  | cons c s =>
    rw [escaped, List.flatMap_cons] at h
    rcases escapeChar_cases c with ⟨h', -⟩ | ⟨-, h'⟩ | ⟨-, h'⟩ | ⟨-, h'⟩ | ⟨-, h'⟩ | ⟨-, h'⟩
    · rw [h'] at h
      rw [(List.cons.inj h).1]
      exact ⟨s, rfl⟩
    all_goals
      rw [h'] at h
      cases h

theorem newlines_escaped (s : List Char) : Html.newlines (escaped s) = escaped (Html.newlines s) := by
  induction s using Html.newlines.induct with
  | case1 => rfl
  | case2 s ih =>
    have hleft : escaped ('\r' :: '\n' :: s) = '\r' :: '\n' :: escaped s := rfl
    rw [hleft, Html.newlines, ih, Html.newlines]
    rfl
  | case3 c s hcrlf ih =>
    rw [Html.newlines.eq_3 _ _ hcrlf]
    by_cases hc : c = '\r'
    · subst hc
      have hnext : ∀ s', '\r' = '\r' → escaped s = '\n' :: s' → False := by
        intro s' _ hs
        obtain ⟨s'', rfl⟩ := escaped_newline hs
        exact hcrlf s'' rfl rfl
      have hleft : escaped ('\r' :: s) = '\r' :: escaped s := rfl
      rw [hleft, Html.newlines.eq_3 _ _ hnext, ih]
      rfl
    · have hleft : escaped (c :: s) = escapeChar c ++ escaped s := rfl
      rw [hleft, Html.newlines_append (notMem_escapeChar_return hc), ih, if_neg hc]
      rfl

theorem map_escapeChar (c : Char) : (escapeChar c).map Html.replaceNull = escapeChar (Html.replaceNull c) := by
  by_cases hc : c = '\x00'
  · subst hc
    decide
  have hsame : Html.replaceNull c = c := if_neg hc
  rw [hsame]
  rcases escapeChar_cases c with ⟨h, -⟩ | ⟨-, h⟩ | ⟨-, h⟩ | ⟨-, h⟩ | ⟨-, h⟩ | ⟨-, h⟩
  · rw [h, List.map_singleton, hsame]
  all_goals
    rw [h]
    decide

/-- Line ends and nulls are not touched by escaping. -/
theorem readValue_escaped (s : List Char) : Html.readValue (escaped s) = escaped (Html.readValue s) := by
  rw [Html.readValue, newlines_escaped, escaped, List.map_flatMap, Html.readValue, escaped, List.flatMap_map]
  exact List.flatMap_congr fun c _ => map_escapeChar c

end chars

end Ploykit.Renderx.Head

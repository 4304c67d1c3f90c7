import Mathlib.Data.List.Basic

/-!
# Reading HTML

The tokenizer of the HTML standard, character by character. Names are read without
regard to letter case, of the attributes with one name the first counts, and what
follows some start tags is text up to the end tag of the same name. Comments and
declarations are skipped to the next `>`, and references are decoded afterwards.
-/

namespace Ploykit.Lib.Html

/-! ## Characters -/

def isSpace (c : Char) : Bool := c = '\t' || c = '\n' || c = '\x0c' || c = ' '

/-- Line ends are newlines before anything else is read. -/
def newlines : List Char → List Char
  | [] => []
  | '\r' :: '\n' :: s => '\n' :: newlines s
  | c :: s => (if c = '\r' then '\n' else c) :: newlines s

def replaceNull (c : Char) : Char := if c = '\x00' then '\uFFFD' else c

/-- A character of a name. -/
def nameChar (c : Char) : Char := (replaceNull c).toLower

/-- The references that stand for the characters of the syntax. -/
def decode : List Char → List Char
  | [] => []
  | '&' :: 'a' :: 'm' :: 'p' :: ';' :: s => '&' :: decode s
  | '&' :: 'l' :: 't' :: ';' :: s => '<' :: decode s
  | '&' :: 'g' :: 't' :: ';' :: s => '>' :: decode s
  | '&' :: '#' :: '3' :: '4' :: ';' :: s => '"' :: decode s
  | '&' :: '#' :: '3' :: '9' :: ';' :: s => '\'' :: decode s
  | c :: s => c :: decode s

/-! ## Tags -/

abbrev Name := List Char

instance : LawfulBEq Name := inferInstance

abbrev Attrs := List (Name × List Char)

inductive Token where
  | start (name : Name) (attrs : Attrs)
  | stop (name : Name)
  | text (s : List Char)
  deriving DecidableEq, Repr

/-- Elements that have ended with their start tag. -/
def voidNames : List Name :=
  ["area", "base", "basefont", "bgsound", "br", "col", "embed", "frame", "hr", "img", "input", "keygen", "link", "meta", "param",
    "source", "track", "wbr"].map String.toList

/-- Parts of a document or of a table, whose start tags make no element where they stand alone. -/
def strayNames : List Name :=
  ["html", "head", "body", "frameset", "frame", "caption", "col", "colgroup", "tbody", "td", "tfoot", "th", "thead", "tr"].map String.toList

/-- Elements whose content is text up to their end tag. -/
def rawNames : List Name :=
  ["title", "textarea", "style", "script", "xmp", "iframe", "noembed", "noframes", "noscript"].map String.toList

inductive Mode where
  | data
  | tagOpen
  | endTagOpen
  | tagName
  | beforeAttr
  | attrName
  | afterAttrName
  | beforeValue
  | quoted (quote : Char)
  | unquoted
  | afterQuoted
  | selfClosing
  | comment
  | raw
  | rawOpen
  | rawEndOpen
  | rawEndName
  | plaintext
  deriving DecidableEq, Repr

/-- What comes after the start tag of an element. -/
def content (name : Name) : Mode :=
  if name ∈ rawNames then .raw else if name = "plaintext".toList then .plaintext else .data

structure Lexer where
  mode : Mode := .data
  /-- The tag that is being read is an end tag. -/
  stops : Bool := false
  name : Name := []
  attrs : Attrs := []
  key : Name := []
  value : List Char := []
  text : List Char := []
  /-- The name of the last start tag. -/
  last : Name := []
  out : List Token := []
  deriving DecidableEq, Repr

namespace Lexer

variable (l : Lexer)

def textTokens (s : List Char) : List Token := if s = [] then [] else [.text s]

/-- The text so far becomes a token. -/
def flush : Lexer := { l with text := [], out := l.out ++ textTokens l.text }

/-- An attribute is kept if none before it has its name. -/
def push (attrs : Attrs) (a : Name × List Char) : Attrs := if attrs.any (·.1 = a.1) then attrs else attrs ++ [a]

def endAttr : Lexer := { l with attrs := push l.attrs (l.key, l.value), key := [], value := [] }

def emit : Lexer :=
  if l.stops then { l with mode := .data, stops := false, name := [], attrs := [], out := l.out ++ [.stop l.name] }
  else { l with mode := content l.name, name := [], attrs := [], last := l.name, out := l.out ++ [.start l.name l.attrs] }

def inData (c : Char) : Lexer := if c = '<' then { l with mode := .tagOpen } else { l with mode := .data, text := l.text ++ [c] }

def inRaw (c : Char) : Lexer := if c = '<' then { l with mode := .rawOpen } else { l with mode := .raw, text := l.text ++ [c] }

/-- After the name of a tag. -/
def inTag (c : Char) : Lexer :=
  if isSpace c then { l with mode := .beforeAttr } else if c = '/' then { l with mode := .selfClosing } else emit l

def inBeforeAttr (c : Char) : Lexer :=
  if isSpace c || c = '/' || c = '>' then inTag l c else { l with mode := .attrName, key := [nameChar c] }

def inAfterAttrName (c : Char) : Lexer :=
  if isSpace c then { l with mode := .afterAttrName }
  else if c = '/' || c = '>' then inTag (endAttr l) c
  else if c = '=' then { l with mode := .beforeValue }
  else { endAttr l with mode := .attrName, key := [nameChar c] }

def step (l : Lexer) (c : Char) : Lexer :=
  match l.mode with
  | .data => inData l c
  | .tagOpen =>
    if c = '/' then { l with mode := .endTagOpen }
    else if c.isAlpha then { flush l with mode := .tagName, stops := false, name := [c.toLower] }
    else if c = '!' || c = '?' then { flush l with mode := .comment }
    else inData { l with text := l.text ++ ['<'] } c
  | .endTagOpen =>
    if c.isAlpha then { flush l with mode := .tagName, stops := true, name := [c.toLower] }
    else if c = '>' then { l with mode := .data }
    else { flush l with mode := .comment }
  | .tagName => if isSpace c || c = '/' || c = '>' then inTag l c else { l with name := l.name ++ [nameChar c] }
  | .beforeAttr => inBeforeAttr l c
  | .attrName => if isSpace c || c = '/' || c = '>' || c = '=' then inAfterAttrName l c else { l with key := l.key ++ [nameChar c] }
  | .afterAttrName => inAfterAttrName l c
  | .beforeValue =>
    if isSpace c then l
    else if c = '"' || c = '\'' then { l with mode := .quoted c }
    else if c = '>' then emit (endAttr l)
    else { l with mode := .unquoted, value := [replaceNull c] }
  | .quoted quote => if c = quote then { endAttr l with mode := .afterQuoted } else { l with value := l.value ++ [replaceNull c] }
  | .unquoted => if isSpace c || c = '>' then inTag (endAttr l) c else { l with value := l.value ++ [replaceNull c] }
  | .afterQuoted => inBeforeAttr l c
  | .selfClosing => if c = '>' then emit l else inBeforeAttr l c
  | .comment => if c = '>' then { l with mode := .data } else l
  | .raw => inRaw l c
  | .rawOpen => if c = '/' then { l with mode := .rawEndOpen } else inRaw { l with text := l.text ++ ['<'] } c
  | .rawEndOpen =>
    if c.isAlpha then { l with mode := .rawEndName, name := [c] } else inRaw { l with text := l.text ++ ['<', '/'] } c
  | .rawEndName =>
    if c.isAlpha then { l with name := l.name ++ [c] }
    else if l.name.map Char.toLower = l.last ∧ (isSpace c || c = '/' || c = '>') then inTag { flush l with stops := true, name := l.last } c
    else inRaw { l with text := l.text ++ ['<', '/'] ++ l.name, name := [] } c
  | .plaintext => { l with text := l.text ++ [c] }

end Lexer

/-- The tokens of a text. A tag that does not end is dropped. -/
def tokens (s : List Char) : List Token := ((newlines s).foldl Lexer.step {}).flush.out

/-! ## Elements -/

/-- An element with the attributes of its start tag, and whether its own end tag comes next but for
text, or text that belongs to no element. -/
inductive Node where
  | element (name : Name) (attrs : Attrs) (closed : Bool)
  | text
  deriving DecidableEq, Repr

def decodeAttrs (attrs : Attrs) : Attrs := attrs.map fun a => (a.1, decode a.2)

/-- The end tag comes next, but for text. -/
def closes (name : Name) : List Token → Bool
  | .stop m :: _ => m = name
  | .text _ :: .stop m :: _ => m = name
  | _ => false

/-- A start tag with this name opens nothing. -/
def endless (name : Name) : Bool := name ∈ voidNames || name ∈ strayNames || name = "image".toList

/-- What a start tag is that opens nothing. -/
def lone (name : Name) (attrs : Attrs) : List Node :=
  if name ∈ strayNames then [] else if name = "image".toList then [.element "img".toList attrs true] else [.element name attrs true]

/-- The elements in order, and the text between them that is not blank, when `inside` is the element that is open. An end
tag that ends nothing is ignored, but for `</br>`. -/
def nodes (inside : Option Name) : List Token → List Node
  | [] => []
  | .start name attrs :: ts =>
    if endless name then lone name (decodeAttrs attrs) ++ nodes inside ts
    else .element name (decodeAttrs attrs) (closes name ts) :: nodes (some name) ts
  | .stop name :: ts =>
    if inside = some name then nodes none ts
    else if name = "br".toList then .element name [] true :: nodes inside ts
    else nodes inside ts
  | .text s :: ts => if inside = none ∧ ¬ s.all isSpace then .text :: nodes inside ts else nodes inside ts

/-- The elements of a text. -/
def read (s : List Char) : List Node := nodes none (tokens s)

example : read "<p CLASS=a class='b'>x</P>".toList = [.element "p".toList [("class".toList, "a".toList)] true] := by decide +kernel

/-! ## Markup without quirks -/

/-- A character that a name may have and that ends nothing. -/
def Plain (c : Char) : Prop := isSpace c = false ∧ c ≠ '/' ∧ c ≠ '>' ∧ c ≠ '=' ∧ c ≠ '\x00' ∧ c ≠ '\r'

theorem Plain.nameChar {c : Char} (h : Plain c) : nameChar c = c.toLower := by
  rw [Html.nameChar, replaceNull, if_neg h.2.2.2.2.1]

/-- The text of an attribute. -/
def attrText (a : Name × List Char) : List Char := ' ' :: a.1 ++ '=' :: '"' :: a.2 ++ ['"']

/-- An attribute as it is read. -/
def readAttr (a : Name × List Char) : Name × List Char := (a.1.map Char.toLower, a.2.map replaceNull)

structure PlainAttr (a : Name × List Char) : Prop where
  name : a.1 ≠ [] ∧ ∀ c ∈ a.1, Plain c
  value : '"' ∉ a.2

def startText (name : Name) (attrs : Attrs) : List Char := '<' :: name ++ attrs.flatMap attrText ++ ['>']

def stopText (name : Name) : List Char := '<' :: '/' :: name ++ ['>']

namespace Lexer

/-- Between two tags. -/
def resting (out : List Token) (text : List Char) (last : Name) : Lexer := { text, last, out }

/-- In a start tag, after its name or an attribute. -/
def starting (mode : Mode) (name : Name) (attrs : Attrs) (last : Name) (out : List Token) : Lexer := { mode, name, attrs, last, out }

section run

variable {l : Lexer} {out : List Token} {text last name cs s : List Char} {attrs as : Attrs} {mode : Mode} {c : Char}

theorem run_tagName (hm : l.mode = .tagName) (h : ∀ c ∈ cs, Plain c) :
    cs.foldl step l = { l with name := l.name ++ cs.map Char.toLower } := by
  induction cs generalizing l with
  | nil => simp
  | cons c cs ih =>
    obtain ⟨hspace, hslash, hend, -, -⟩ := h c List.mem_cons_self
    have hstep : step l c = { l with name := l.name ++ [c.toLower] } := by
      simp only [step, hm]
      rw [if_neg (by simp [hspace, hslash, hend]), (h c List.mem_cons_self).nameChar]
    rw [List.foldl_cons, hstep]
    exact Eq.trans (ih hm fun d hd => h d (List.mem_cons_of_mem _ hd)) (by simp)

theorem run_startName (hc : c.isAlpha = true) (hne : c ≠ '/') (h : ∀ c ∈ cs, Plain c) :
    ('<' :: c :: cs).foldl step (resting out text last) =
      starting .tagName ((c :: cs).map Char.toLower) [] last (out ++ textTokens text) := by
  have hopen : step (step (resting out text last) '<') c = starting .tagName [c.toLower] [] last (out ++ textTokens text) := by
    simp [resting, starting, step, inData, hc, hne, flush]
  rw [List.foldl_cons, List.foldl_cons, hopen, run_tagName rfl h]
  rfl

theorem run_key (hm : l.mode = .attrName) (h : ∀ c ∈ cs, Plain c) :
    cs.foldl step l = { l with key := l.key ++ cs.map Char.toLower } := by
  induction cs generalizing l with
  | nil => simp
  | cons c cs ih =>
    obtain ⟨hspace, hslash, hend, heq, -⟩ := h c List.mem_cons_self
    have hstep : step l c = { l with key := l.key ++ [c.toLower] } := by
      simp only [step, hm]
      rw [if_neg (by simp [hspace, hslash, hend, heq]), (h c List.mem_cons_self).nameChar]
    rw [List.foldl_cons, hstep]
    exact Eq.trans (ih hm fun d hd => h d (List.mem_cons_of_mem _ hd)) (by simp)

theorem run_value (hm : l.mode = .quoted '"') (h : '"' ∉ s) : s.foldl step l = { l with value := l.value ++ s.map replaceNull } := by
  induction s generalizing l with
  | nil => simp
  | cons c s ih =>
    have hne : c ≠ '"' := fun heq => h (heq ▸ List.mem_cons_self)
    have hstep : step l c = { l with value := l.value ++ [replaceNull c] } := by
      simp only [step, hm]
      rw [if_neg hne]
    rw [List.foldl_cons, hstep]
    exact Eq.trans (ih hm fun hmem => h (List.mem_cons_of_mem _ hmem)) (by simp)

theorem run_attr {a : Name × List Char} (ha : PlainAttr a) (hm : mode = .tagName ∨ mode = .afterQuoted) :
    (attrText a).foldl step (starting mode name attrs last out) = starting .afterQuoted name (push attrs (readAttr a)) last out := by
  obtain ⟨k, v⟩ := a
  obtain ⟨⟨hk, hplain⟩, hv⟩ := ha
  obtain ⟨c, cs, rfl⟩ := List.exists_cons_of_ne_nil hk
  obtain ⟨hspace, hslash, hend, -, -⟩ := hplain c List.mem_cons_self
  have hblank : step (starting mode name attrs last out) ' ' = starting .beforeAttr name attrs last out := by
    rcases hm with rfl | rfl
    · rfl
    · rfl
  have hkey : step (starting .beforeAttr name attrs last out) c = { starting .attrName name attrs last out with key := [c.toLower] } := by
    simp only [step, starting, inBeforeAttr]
    rw [if_neg (by simp [hspace, hslash, hend]), (hplain c List.mem_cons_self).nameChar]
  have htext : attrText (c :: cs, v) = ' ' :: c :: (cs ++ '=' :: '"' :: (v ++ ['"'])) := by
    simp [attrText]
  rw [htext, List.foldl_cons, List.foldl_cons, hblank, hkey, List.foldl_append, run_key rfl fun d hd => hplain d (List.mem_cons_of_mem _ hd),
    List.foldl_cons, List.foldl_cons, List.foldl_append]
  have hquote : step (step { starting .attrName name attrs last out with key := [c.toLower] ++ cs.map Char.toLower } '=') '"' =
      { starting (.quoted '"') name attrs last out with key := (c :: cs).map Char.toLower } := rfl
  rw [hquote, run_value rfl hv]
  rfl

theorem run_attrs (has : ∀ a ∈ as, PlainAttr a) (hm : mode = .tagName ∨ mode = .afterQuoted) :
    ∃ mode', (mode' = .tagName ∨ mode' = .afterQuoted) ∧ (as.flatMap attrText).foldl step (starting mode name attrs last out) =
      starting mode' name ((as.map readAttr).foldl push attrs) last out := by
  induction as generalizing mode attrs with
  | nil => exact ⟨mode, hm, rfl⟩
  | cons a as ih =>
    rw [List.flatMap_cons, List.foldl_append, run_attr (has a List.mem_cons_self) hm]
    exact ih (fun b hb => has b (List.mem_cons_of_mem _ hb)) (.inr rfl)

/-- A start tag is read as its name and its attributes. -/
theorem run_start (hc : c.isAlpha = true) (hne : c ≠ '/') (h : ∀ c ∈ cs, Plain c) (has : ∀ a ∈ as, PlainAttr a) :
    (startText (c :: cs) as).foldl step (resting out text last) =
      { resting (out ++ textTokens text ++ [.start ((c :: cs).map Char.toLower) ((as.map readAttr).foldl push [])]) []
          ((c :: cs).map Char.toLower) with mode := content ((c :: cs).map Char.toLower) } := by
  obtain ⟨mode', hm, hattrs⟩ := @run_attrs (out ++ textTokens text) last ((c :: cs).map Char.toLower) [] as .tagName has (.inl rfl)
  have hend : ∀ {name attrs out}, step (starting mode' name attrs last out) '>' = emit (starting mode' name attrs last out) := by
    rcases hm with rfl | rfl
    · exact rfl
    · exact rfl
  rw [startText, List.foldl_append, List.cons_append, List.cons_append, ← List.cons_append, ← List.cons_append, List.foldl_append,
    run_startName hc hne h, hattrs, List.foldl_cons, hend]
  rfl

theorem run_text (hm : l.mode = .data ∨ l.mode = .raw) (h : '<' ∉ s) : s.foldl step l = { l with text := l.text ++ s } := by
  induction s generalizing l with
  | nil => simp
  | cons c s ih =>
    have hne : c ≠ '<' := fun heq => h (heq ▸ List.mem_cons_self)
    have hstep : step l c = { l with text := l.text ++ [c] } := by
      rcases hm with hm | hm
      · simp [step, hm, inData, hne]
      · simp [step, hm, inRaw, hne]
    rw [List.foldl_cons, hstep]
    exact Eq.trans (ih hm fun hmem => h (List.mem_cons_of_mem _ hmem)) (by simp)

theorem run_stop (hc : c.isAlpha = true) (h : ∀ c ∈ cs, Plain c) :
    (stopText (c :: cs)).foldl step (resting out text last) =
      resting (out ++ textTokens text ++ [.stop ((c :: cs).map Char.toLower)]) [] last := by
  have hopen : step (step (step (resting out text last) '<') '/') c =
      { starting .tagName [c.toLower] [] last (out ++ textTokens text) with stops := true } := by
    simp [resting, starting, step, inData, hc, flush]
  have htext : stopText (c :: cs) = '<' :: '/' :: c :: (cs ++ ['>']) := rfl
  rw [htext, List.foldl_cons, List.foldl_cons, List.foldl_cons, hopen, List.foldl_append, run_tagName rfl h]
  rfl

theorem run_rawName (hm : l.mode = .rawEndName) (h : ∀ c ∈ cs, c.isAlpha = true) : cs.foldl step l = { l with name := l.name ++ cs } := by
  induction cs generalizing l with
  | nil => simp
  | cons c cs ih =>
    have hstep : step l c = { l with name := l.name ++ [c] } := by
      simp [step, hm, h c List.mem_cons_self]
    rw [List.foldl_cons, hstep]
    exact Eq.trans (ih hm fun d hd => h d (List.mem_cons_of_mem _ hd)) (by simp)

/-- Raw text ends at the end tag with the name of its start tag. -/
theorem run_rawStop (h : ∀ d ∈ c :: cs, d.isAlpha = true) :
    (stopText (c :: cs)).foldl step { resting out text ((c :: cs).map Char.toLower) with mode := .raw } =
      resting (out ++ textTokens text ++ [.stop ((c :: cs).map Char.toLower)]) [] ((c :: cs).map Char.toLower) := by
  have hopen : step (step (step { resting out text ((c :: cs).map Char.toLower) with mode := .raw } '<') '/') c =
      { resting out text ((c :: cs).map Char.toLower) with mode := .rawEndName, name := [c] } := by
    simp [resting, step, inRaw, h c List.mem_cons_self]
  have htext : stopText (c :: cs) = '<' :: '/' :: c :: (cs ++ ['>']) := rfl
  rw [htext, List.foldl_cons, List.foldl_cons, List.foldl_cons, hopen, List.foldl_append,
    run_rawName rfl fun d hd => h d (List.mem_cons_of_mem _ hd)]
  have hend : ('>' : Char).isAlpha = false := by decide
  simp [step, hend, inTag, emit, flush, resting, isSpace]

theorem run_plaintext (hm : l.mode = .plaintext) : s.foldl step l = { l with text := l.text ++ s } := by
  induction s generalizing l with
  | nil => simp
  | cons c s ih =>
    have hstep : step l c = { l with text := l.text ++ [c] } := by simp [step, hm]
    rw [List.foldl_cons, hstep]
    exact Eq.trans (ih hm) (by simp)

end run

end Lexer

/-! ## Line ends and nulls -/

section newlines

variable {a b s : List Char} {c : Char}

theorem newlines_cons (h : c ≠ '\r') (s : List Char) : newlines (c :: s) = c :: newlines s := by
  rw [newlines]
  · rw [if_neg h]
  · rintro _ rfl
    exact absurd rfl h

theorem newlines_append (h : '\r' ∉ a) (b : List Char) : newlines (a ++ b) = a ++ newlines b := by
  induction a with
  | nil => rfl
  | cons c a ih =>
    rw [List.cons_append, newlines_cons (fun heq => h (heq ▸ List.mem_cons_self)), ih fun hmem => h (List.mem_cons_of_mem _ hmem)]
    rfl

/-- Line ends are found in two texts apart if the second does not begin with a newline. -/
theorem newlines_append_cons (h : c ≠ '\n') (a b : List Char) : newlines (a ++ c :: b) = newlines a ++ newlines (c :: b) := by
  induction a using newlines.induct with
  | case1 => rfl
  | case2 s ih =>
    have hleft : ('\r' :: '\n' :: s) ++ c :: b = '\r' :: '\n' :: (s ++ c :: b) := rfl
    rw [hleft, newlines, ih, newlines]
    rfl
  | case3 d s hcrlf ih =>
    have hnext : ∀ s', d = '\r' → s ++ c :: b = '\n' :: s' → False := by
      intro s' hd hs
      cases s with
      | nil => exact h (List.cons.inj hs).1
      | cons e s => exact hcrlf s hd (by rw [(List.cons.inj hs).1])
    rw [List.cons_append, newlines.eq_3 _ _ hnext, ih, newlines.eq_3 _ _ hcrlf]
    rfl

theorem newlines_attrText {a : Name × List Char} (h : '\r' ∉ a.1) (b : List Char) :
    newlines (attrText a ++ b) = attrText (a.1, newlines a.2) ++ newlines b := by
  have hsplit : attrText a ++ b = (' ' :: a.1 ++ ['=', '"']) ++ (a.2 ++ '"' :: b) := by simp [attrText]
  have hhead : '\r' ∉ ' ' :: a.1 ++ ['=', '"'] := by simp [h]
  rw [hsplit, newlines_append hhead, newlines_append_cons (by decide), newlines_cons (by decide)]
  simp [attrText]

theorem newlines_attrTexts {attrs : Attrs} (h : ∀ a ∈ attrs, '\r' ∉ a.1) (b : List Char) :
    newlines (attrs.flatMap attrText ++ b) = (attrs.map fun a => (a.1, newlines a.2)).flatMap attrText ++ newlines b := by
  induction attrs with
  | nil => rfl
  | cons a attrs ih =>
    rw [List.flatMap_cons, List.append_assoc, newlines_attrText (h a List.mem_cons_self), ih fun b hb => h b (List.mem_cons_of_mem _ hb),
      List.map_cons, List.flatMap_cons, List.append_assoc]

/-- In a tag only the values can have line ends. -/
theorem newlines_startText {name : Name} {attrs : Attrs} (hname : '\r' ∉ name) (h : ∀ a ∈ attrs, '\r' ∉ a.1) (b : List Char) :
    newlines (startText name attrs ++ b) = startText name (attrs.map fun a => (a.1, newlines a.2)) ++ newlines b := by
  have hsplit : startText name attrs ++ b = ('<' :: name) ++ (attrs.flatMap attrText ++ '>' :: b) := by simp [startText]
  rw [hsplit, newlines_append (by simp [hname]), newlines_attrTexts h, newlines_cons (by decide)]
  simp [startText]

theorem newlines_stopText {name : Name} (hname : '\r' ∉ name) (b : List Char) :
    newlines (stopText name ++ b) = stopText name ++ newlines b :=
  newlines_append (by simp [stopText, hname]) b

/-- A value as it is read in quotes. -/
def readValue (s : List Char) : List Char := (newlines s).map replaceNull

theorem newlines_noReturn (s : List Char) : '\r' ∉ newlines s := by
  induction s using newlines.induct with
  | case1 => simp [newlines]
  | case2 s ih =>
    rw [newlines]
    simpa using ih
  | case3 d s hcrlf ih =>
    rw [newlines]
    · by_cases hd : d = '\r'
      · simpa [hd] using ih
      · simpa [hd, Ne.symm hd] using ih
    · exact hcrlf

/-- A value is read back as it is if it has neither carriage returns nor nulls. -/
theorem readValue_eq_iff : readValue s = s ↔ '\r' ∉ s ∧ '\x00' ∉ s := by
  constructor
  · intro h
    rw [← h]
    refine ⟨fun hmem => ?_, fun hmem => ?_⟩
    · obtain ⟨c, hc, hr⟩ := List.mem_map.1 hmem
      have hcr : c = '\r' := by
        unfold replaceNull at hr
        split at hr
        · cases hr
        · exact hr
      exact newlines_noReturn s (hcr ▸ hc)
    · obtain ⟨c, -, hr⟩ := List.mem_map.1 hmem
      unfold replaceNull at hr
      split at hr
      · cases hr
      · rename_i hne
        exact hne hr
  · rintro ⟨hreturn, hnull⟩
    have hnormal : newlines s = s := by simpa [newlines] using newlines_append hreturn []
    rw [readValue, hnormal]
    refine List.map_congr_left (fun c hc => ?_) |>.trans (List.map_id s)
    have hne : c ≠ '\x00' := fun heq => hnull (heq ▸ hc)
    exact if_neg hne

end newlines

theorem decode_cons {c : Char} (h : c ≠ '&') (s : List Char) : decode (c :: s) = c :: decode s := by
  rw [decode]
  all_goals
    intro _ heq _
    exact h heq

/-! ## Attributes with one name -/

section push

variable {as bs : Attrs} {a : Name × List Char}

theorem push_names (h : (as.map (·.1)).Nodup) : ((Lexer.push as a).map (·.1)).Nodup := by
  unfold Lexer.push
  split
  · exact h
  · rename_i hnew
    rw [List.map_append, List.nodup_append]
    refine ⟨h, by simp, fun k hk k' hk' heq => hnew ?_⟩
    obtain ⟨b, hb, hbk⟩ := List.mem_map.1 hk
    rw [List.map_singleton, List.mem_singleton] at hk'
    exact List.any_eq_true.2 ⟨b, hb, decide_eq_true (hbk.trans (heq.trans hk'))⟩

theorem foldl_push_names (h : (bs.map (·.1)).Nodup) : ((as.foldl Lexer.push bs).map (·.1)).Nodup := by
  induction as generalizing bs with
  | nil => exact h
  | cons a as ih => exact ih (push_names h)

/-- Attributes with different names are all kept. -/
theorem foldl_push (h : ((bs ++ as).map (·.1)).Nodup) : as.foldl Lexer.push bs = bs ++ as := by
  induction as generalizing bs with
  | nil => simp
  | cons a as ih =>
    have hnew : ¬ bs.any (·.1 = a.1) = true := by
      intro hany
      obtain ⟨b, hb, hname⟩ := List.any_eq_true.1 hany
      rw [List.map_append, List.nodup_append] at h
      exact h.2.2 b.1 (List.mem_map_of_mem hb) a.1 List.mem_cons_self (of_decide_eq_true hname)
    have hpush : Lexer.push bs a = bs ++ [a] := if_neg hnew
    rw [List.foldl_cons, hpush, ih (by simpa using h)]
    simp

/-- Attributes with a name that there is already are dropped. -/
theorem foldl_push_filter {k : Name} (h : k ∈ bs.map (·.1)) : as.foldl Lexer.push bs = (as.filter (·.1 ≠ k)).foldl Lexer.push bs := by
  induction as generalizing bs with
  | nil => rfl
  | cons a as ih =>
    by_cases hname : a.1 = k
    · have hpush : Lexer.push bs a = bs := by
        obtain ⟨b, hb, hbk⟩ := List.mem_map.1 h
        exact if_pos (List.any_eq_true.2 ⟨b, hb, decide_eq_true (hbk.trans hname.symm)⟩)
      rw [List.foldl_cons, hpush, ih h, List.filter_cons_of_neg (by simpa using hname)]
    · have hkept : k ∈ (Lexer.push bs a).map (·.1) := by
        unfold Lexer.push
        split
        · exact h
        · rw [List.map_append]
          exact List.mem_append_left _ h
      rw [List.foldl_cons, ih hkept, List.filter_cons_of_pos (by simpa using hname), List.foldl_cons]

theorem foldl_push_map {f : List Char → List Char} :
    (as.foldl Lexer.push bs).map (fun a => (a.1, f a.2)) = (as.map fun a => (a.1, f a.2)).foldl Lexer.push (bs.map fun a => (a.1, f a.2)) := by
  induction as generalizing bs with
  | nil => rfl
  | cons a as ih =>
    rw [List.foldl_cons, ih, List.map_cons, List.foldl_cons]
    congr 1
    have hany : (bs.map fun a => (a.1, f a.2)).any (·.1 = a.1) = bs.any (·.1 = a.1) := by simp [List.any_map, Function.comp_def]
    unfold Lexer.push
    rw [hany]
    split
    · rfl
    · simp

end push

/-! ## Elements one after the other -/

section nodes

variable {name : Name} {attrs : Attrs} {s : List Char} {ts : List Token}

theorem nodes_cons_start (inside : Option Name) : nodes inside (.start name attrs :: ts) =
    if endless name then lone name (decodeAttrs attrs) ++ nodes inside ts
    else .element name (decodeAttrs attrs) (closes name ts) :: nodes (some name) ts := rfl

theorem nodes_cons_stop (inside : Option Name) : nodes inside (.stop name :: ts) =
    if inside = some name then nodes none ts
    else if name = "br".toList then .element name [] true :: nodes inside ts
    else nodes inside ts := rfl

theorem nodes_cons_text (inside : Option Name) : nodes inside (.text s :: ts) =
    if inside = none ∧ ¬ s.all isSpace then .text :: nodes inside ts else nodes inside ts := rfl

theorem nodes_blank (h : s.all isSpace = true) (ts : List Token) : nodes none (Lexer.textTokens s ++ ts) = nodes none ts := by
  unfold Lexer.textTokens
  split
  · rfl
  · rw [List.singleton_append, nodes_cons_text, if_neg (by simp [h])]

theorem nodes_text (h : s.all isSpace = false) (ts : List Token) : nodes none (Lexer.textTokens s ++ ts) = .text :: nodes none ts := by
  unfold Lexer.textTokens
  split
  · rename_i hnil
    rw [hnil] at h
    cases h
  · rw [List.singleton_append, nodes_cons_text, if_pos (by simp [h])]

theorem nodes_endless (h : endless name = true) (ts : List Token) :
    nodes none (.start name attrs :: ts) = lone name (decodeAttrs attrs) ++ nodes none ts := by
  rw [nodes_cons_start, if_pos h]

/-- A start tag, text and the end tag of the same name are one element. -/
theorem nodes_element (h : endless name = false) (ts : List Token) :
    nodes none (.start name attrs :: (Lexer.textTokens s ++ .stop name :: ts)) = .element name (decodeAttrs attrs) true :: nodes none ts := by
  unfold Lexer.textTokens
  split
  · rw [List.nil_append, nodes_cons_start, if_neg (by simp [h]), nodes_cons_stop, if_pos rfl]
    simp [closes]
  · rw [List.singleton_append, nodes_cons_start, if_neg (by simp [h]), nodes_cons_text, if_neg (by simp), nodes_cons_stop, if_pos rfl]
    simp [closes]

/-- An element whose end tag does not come is not closed. -/
theorem nodes_open (h : endless name = false) (s : List Char) :
    nodes none (.start name attrs :: Lexer.textTokens s) = [.element name (decodeAttrs attrs) false] := by
  unfold Lexer.textTokens
  split
  · rw [nodes_cons_start, if_neg (by simp [h])]
    rfl
  · rw [nodes_cons_start, if_neg (by simp [h]), nodes_cons_text, if_neg (by simp)]
    rfl

/-- An end tag that ends nothing. -/
theorem nodes_stop : nodes none (.stop name :: ts) = (if name = "br".toList then [.element name [] true] else []) ++ nodes none ts := by
  rw [nodes_cons_stop, if_neg (by simp)]
  split
  · rfl
  · rfl

end nodes

end Ploykit.Lib.Html

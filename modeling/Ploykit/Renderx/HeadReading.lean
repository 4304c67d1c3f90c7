import Ploykit.Renderx.Head

/-!
# Reading head markup

The tokens of an entry, one case for each kind of content that its start tag opens, and
from them the elements of the lines of a document's head.
-/

namespace Ploykit.Renderx.Head

open Lib Html

def lower (s : String) : Name := s.toList.map Char.toLower

/-! ## Attributes -/

/-- What attributes say. -/
def given (as : List (String × String)) : Attrs := as.map fun a => (lower a.1, a.2.toList)

/-- What is read of attributes. -/
def seen (as : List (String × String)) : Attrs := (as.map fun a => (lower a.1, readValue a.2.toList)).foldl Lexer.push []

/-- Attributes whose names differ by more than letter case, with values that HTML does not change. -/
structure CleanAttrs (as : List (String × String)) : Prop where
  names : (as.map fun a => lower a.1).Nodup
  values : ∀ a ∈ as, '\r' ∉ a.2.toList ∧ '\x00' ∉ a.2.toList

section attributes

variable {as : List (String × String)}

theorem seen_of_names (h : (as.map fun a => lower a.1).Nodup) : seen as = as.map fun a => (lower a.1, readValue a.2.toList) := by
  rw [seen, foldl_push]
  · rfl
  · rw [List.nil_append, List.map_map]
    exact h

theorem seen_eq_iff : seen as = given as ↔ CleanAttrs as := by
  constructor
  · intro h
    have hnodup : ((seen as).map (·.1)).Nodup := foldl_push_names (by simp)
    have hnames : (as.map fun a => lower a.1).Nodup := by
      rw [h, given, List.map_map] at hnodup
      exact hnodup
    rw [seen_of_names hnames, given, List.map_inj_left] at h
    exact ⟨hnames, fun a ha => readValue_eq_iff.1 (Prod.ext_iff.1 (h a ha)).2⟩
  · intro h
    rw [seen_of_names h.names, given]
    exact List.map_congr_left fun a ha => Prod.ext rfl (readValue_eq_iff.2 (h.values a ha))

/-- The attributes of a tag with their values as they stand in it. -/
def texts (as : List (String × String)) : Attrs := as.map fun a => (a.1.toList, newlines (escaped a.2.toList))

theorem decode_texts : decodeAttrs (((texts as).map readAttr).foldl Lexer.push []) = seen as := by
  rw [decodeAttrs, foldl_push_map, texts, List.map_map, List.map_map, seen]
  refine congrArg (List.foldl Lexer.push []) (List.map_congr_left fun a _ => Prod.ext rfl ?_)
  have hvalue : (newlines (escaped a.2.toList)).map replaceNull = escaped (readValue a.2.toList) := readValue_escaped _
  simp [readAttr, hvalue, decode_escaped]

theorem plain_name {name : String} (h : attrRE name = true) : name.toList ≠ [] ∧ ∀ c ∈ name.toList, Plain c := by
  obtain ⟨c, cs, hname, hc, hcs⟩ := isName_cons h
  rw [hname]
  refine ⟨List.cons_ne_nil _ _, fun d hd => ?_⟩
  rcases List.mem_cons.1 hd with rfl | hd
  · exact plain_of_isAlphanum (isAlphanum_of_isAlpha hc)
  · exact plain_attrChar (hcs d hd)

theorem plain_texts (h : ∀ a ∈ as, attrRE a.1 = true) : ∀ a ∈ texts as, PlainAttr a := by
  intro a ha
  obtain ⟨a, ha', rfl⟩ := List.mem_map.1 ha
  refine ⟨plain_name (h a ha'), ?_⟩
  rw [newlines_escaped]
  exact notMem_escaped (.inr rfl) _

theorem noReturn_of_plain {name : Name} (h : ∀ c ∈ name, Plain c) : '\r' ∉ name := fun hmem => (h _ hmem).2.2.2.2.2 rfl

theorem noReturn_charAttrs (h : ∀ a ∈ as, attrRE a.1 = true) : ∀ a ∈ as.map charAttr, '\r' ∉ a.1 := by
  intro a ha
  obtain ⟨a, ha', rfl⟩ := List.mem_map.1 ha
  exact noReturn_of_plain (plain_name (h a ha')).2

theorem newlines_charAttrs : (as.map charAttr).map (fun a => (a.1, newlines a.2)) = texts as := by
  rw [List.map_map]
  rfl

end attributes

/-! ## One entry -/

/-- Text of which no element is made. -/
def blank (s : String) : Bool := s.toList.all fun c => isSpace c || c = '\r'

/-- What stands between a start tag that opens nothing and its end tag, and what the end tag makes. -/
def loose (e : HeadEntry) : List Node :=
  (if blank e.children then [] else [.text]) ++ (if lower e.tag = "br".toList then [.element (lower e.tag) [] true] else [])

/-- What is read of an entry. -/
def nodesOf (e : HeadEntry) : List Node :=
  if endless (lower e.tag) then lone (lower e.tag) (seen (sorted e.attrs)) ++ (if e.tag ∈ voidElements then [] else loose e)
  else [.element (lower e.tag) (seen (sorted e.attrs)) true]

section entry

variable {e : HeadEntry} {s : String} {out : List Token} {text last : List Char}

theorem all_escapeChar (c : Char) : (escapeChar c).all isSpace = isSpace c := by
  rcases escapeChar_cases c with ⟨h, -⟩ | ⟨rfl, h⟩ | ⟨rfl, h⟩ | ⟨rfl, h⟩ | ⟨rfl, h⟩ | ⟨rfl, h⟩
  · rw [h]
    simp
  all_goals
    rw [h]
    decide

theorem all_escaped (s : List Char) : (escaped s).all isSpace = s.all isSpace := by
  induction s with
  | nil => rfl
  | cons c s ih =>
    have hleft : escaped (c :: s) = escapeChar c ++ escaped s := rfl
    rw [hleft, List.all_append, all_escapeChar, ih, List.all_cons]

theorem all_newlines (s : List Char) : (newlines s).all isSpace = s.all fun c => isSpace c || c = '\r' := by
  induction s using newlines.induct with
  | case1 => rfl
  | case2 s ih =>
    rw [newlines, List.all_cons, ih]
    rfl
  | case3 c s hcrlf ih =>
    rw [newlines.eq_3 _ _ hcrlf, List.all_cons, ih, List.all_cons]
    by_cases hc : c = '\r'
    · subst hc
      rfl
    · simp [hc]

theorem blank_children (e : HeadEntry) : (newlines (escaped e.children.toList)).all isSpace = blank e.children := by
  rw [newlines_escaped, all_escaped, all_newlines]
  rfl

/-- The tag of an accepted entry. -/
theorem tag_cons (h : tagRE e.tag = true) :
    ∃ c cs, e.tag.toList = c :: cs ∧ c.isAlpha = true ∧ c ≠ '/' ∧ ∀ d ∈ cs, Plain d := by
  obtain ⟨c, cs, htag, hc, hcs⟩ := isName_cons h
  exact ⟨c, cs, htag, hc, (plain_of_isAlphanum (isAlphanum_of_isAlpha hc)).2.1, fun d hd => plain_tagChar (hcs d hd)⟩

/-- The attributes of the start tag's token. -/
def marks (e : HeadEntry) : Attrs := ((texts (sorted e.attrs)).map readAttr).foldl Lexer.push []

theorem run_open (h : renderHeadEntry e = .ok s) (b : List Char) :
    (newlines (startText e.tag.toList (charAttrs e.attrs) ++ b)).foldl Lexer.step (Lexer.resting out text last) =
      (newlines b).foldl Lexer.step
        { Lexer.resting (out ++ Lexer.textTokens text ++ [.start (lower e.tag) (marks e)]) [] (lower e.tag) with mode := content (lower e.tag) } := by
  obtain ⟨htag, -, hrefused, -⟩ := renderHeadEntry_ok h
  obtain ⟨c, cs, hname, hc, hne, hcs⟩ := tag_cons htag
  have hattrs : ∀ a ∈ sorted e.attrs, attrRE a.1 = true := fun a ha => (refused_eq_none hrefused ha).1
  have hreturn : '\r' ∉ e.tag.toList := by
    rw [hname]
    refine noReturn_of_plain fun d hd => ?_
    rcases List.mem_cons.1 hd with rfl | hd
    · exact plain_of_isAlphanum (isAlphanum_of_isAlpha hc)
    · exact hcs d hd
  have hlower : lower e.tag = (c :: cs).map Char.toLower := by rw [lower, hname]
  rw [charAttrs, newlines_startText hreturn (noReturn_charAttrs hattrs), newlines_charAttrs, List.foldl_append, marks, hlower, hname,
    Lexer.run_start hc hne hcs (plain_texts hattrs)]

theorem isAlpha_of_toLower {c : Char} (h : c.toLower.isAlpha = true) : c.isAlpha = true := by
  unfold Char.toLower at h
  split at h
  · rename_i hupper
    exact Bool.or_eq_true_iff.2 (.inl (decide_eq_true hupper))
  · exact h

theorem rawNames_alpha : (rawNames.all fun name => name.all Char.isAlpha) = true := by decide

/-- The tag of an entry whose content is raw text has only letters. -/
theorem alpha_of_raw (h : lower e.tag ∈ rawNames) : ∀ c ∈ e.tag.toList, c.isAlpha = true :=
  fun _ hc => isAlpha_of_toLower (List.all_eq_true.1 (List.all_eq_true.1 rawNames_alpha _ h) _ (List.mem_map_of_mem hc))

/-- The children, and the end tag that ends them. -/
theorem run_close (h : tagRE e.tag = true) (hp : lower e.tag ≠ "plaintext".toList) (b : List Char) :
    (newlines (escaped e.children.toList ++ (stopText e.tag.toList ++ b))).foldl Lexer.step
        { Lexer.resting out [] (lower e.tag) with mode := content (lower e.tag) } =
      (newlines b).foldl Lexer.step
        (Lexer.resting (out ++ Lexer.textTokens (newlines (escaped e.children.toList)) ++ [.stop (lower e.tag)]) [] (lower e.tag)) := by
  obtain ⟨c, cs, hname, hc, hne, hcs⟩ := tag_cons h
  have hplain : ∀ d ∈ c :: cs, Plain d := by
    intro d hd
    rcases List.mem_cons.1 hd with rfl | hd
    · exact plain_of_isAlphanum (isAlphanum_of_isAlpha hc)
    · exact hcs d hd
  have hlower : lower e.tag = (c :: cs).map Char.toLower := by rw [lower, hname]
  have hsplit : newlines (escaped e.children.toList ++ (stopText e.tag.toList ++ b)) =
      newlines (escaped e.children.toList) ++ (stopText e.tag.toList ++ newlines b) := by
    rw [← newlines_stopText (hname ▸ noReturn_of_plain hplain)]
    exact newlines_append_cons (by decide) _ _
  have htext : '<' ∉ newlines (escaped e.children.toList) := by
    rw [newlines_escaped]
    exact notMem_escaped (.inl rfl) _
  rw [hsplit, List.foldl_append, List.foldl_append]
  by_cases hraw : lower e.tag ∈ rawNames
  · have hmode : content (lower e.tag) = .raw := if_pos hraw
    rw [Lexer.run_text (.inr hmode) htext, hmode]
    have hstop := @Lexer.run_rawStop out ([] ++ newlines (escaped e.children.toList)) cs c (hname ▸ alpha_of_raw hraw)
    rw [← hlower, ← hname, List.nil_append] at hstop
    exact congrArg (fun l => (newlines b).foldl Lexer.step l) hstop
  · have hmode : content (lower e.tag) = .data := by rw [content, if_neg hraw, if_neg hp]
    rw [Lexer.run_text (.inl hmode) htext, hmode]
    have hstop := @Lexer.run_stop out ([] ++ newlines (escaped e.children.toList)) (lower e.tag) cs c hc hcs
    rw [← hlower, ← hname, List.nil_append] at hstop
    exact congrArg (fun l => (newlines b).foldl Lexer.step l) hstop

theorem decode_marks (e : HeadEntry) : decodeAttrs (marks e) = seen (sorted e.attrs) := decode_texts

theorem voidElements_open : ∀ tag ∈ voidElements, endless (lower tag) = true ∧ content (lower tag) = .data := by decide

/-- An accepted entry is read as its elements, and what follows is read by itself. -/
theorem run_entry (h : renderHeadEntry e = .ok s) (hp : lower e.tag ≠ "plaintext".toList) (htext : text.all isSpace = true) (b : List Char) :
    ∃ out' last', (newlines (s.toList ++ b)).foldl Lexer.step (Lexer.resting out text last) =
        (newlines b).foldl Lexer.step (Lexer.resting (out ++ out') [] last') ∧
      ∀ ts, nodes none (out' ++ ts) = nodesOf e ++ nodes none ts := by
  obtain ⟨htag, -, -, hs⟩ := renderHeadEntry_ok h
  by_cases hvoid : e.tag ∈ voidElements
  · obtain ⟨hendless, hmode⟩ := voidElements_open e.tag hvoid
    refine ⟨Lexer.textTokens text ++ [.start (lower e.tag) (marks e)], lower e.tag, ?_, fun ts => ?_⟩
    · rw [hs, if_pos hvoid, List.append_nil, run_open h, hmode, List.append_assoc]
      rfl
    · rw [List.append_assoc, nodes_blank htext, List.singleton_append, nodes_endless hendless, decode_marks, nodesOf, if_pos hendless,
        if_pos hvoid, List.append_nil]
  · refine ⟨Lexer.textTokens text ++ .start (lower e.tag) (marks e) ::
      (Lexer.textTokens (newlines (escaped e.children.toList)) ++ [.stop (lower e.tag)]), lower e.tag, ?_, fun ts => ?_⟩
    · rw [hs, if_neg hvoid, List.append_assoc, run_open h, List.append_assoc (escaped _), run_close htag hp]
      simp
    · have hsplit : Lexer.textTokens text ++ .start (lower e.tag) (marks e) ::
          (Lexer.textTokens (newlines (escaped e.children.toList)) ++ [.stop (lower e.tag)]) ++ ts = Lexer.textTokens text ++
            .start (lower e.tag) (marks e) :: (Lexer.textTokens (newlines (escaped e.children.toList)) ++ .stop (lower e.tag) :: ts) := by
        simp
      rw [hsplit, nodes_blank htext]
      by_cases hendless : endless (lower e.tag) = true
      · rw [nodes_endless hendless, decode_marks, nodesOf, if_pos hendless, if_neg hvoid, loose, List.append_assoc, List.append_assoc,
          ← nodes_stop]
        by_cases hblank : blank e.children = true
        · rw [nodes_blank ((blank_children e).trans hblank), if_pos hblank]
          rfl
        · rw [nodes_text ((blank_children e).trans (by simpa using hblank)), if_neg hblank]
          rfl
      · rw [nodes_element (by simpa using hendless), decode_marks, nodesOf, if_neg hendless]
        rfl

end entry

/-! ## Every line -/

/-- What is read of the lines of a document's head. All that follows `<plaintext>` is text. -/
def readLines : List HeadEntry → List Node
  | [] => []
  | e :: es => if lower e.tag = "plaintext".toList then [.element (lower e.tag) (seen (sorted e.attrs)) false] else nodesOf e ++ readLines es

section lines

variable {e : HeadEntry} {es : List HeadEntry} {s : String} {out : List Token} {text last : List Char}

theorem run_plain (h : renderHeadEntry e = .ok s) (hp : lower e.tag = "plaintext".toList) (htext : text.all isSpace = true) (b : List Char) :
    ∃ out', ((newlines (s.toList ++ b)).foldl Lexer.step (Lexer.resting out text last)).flush.out = out ++ out' ∧
      nodes none out' = [.element (lower e.tag) (seen (sorted e.attrs)) false] := by
  obtain ⟨-, -, -, hs⟩ := renderHeadEntry_ok h
  have hmode : content (lower e.tag) = .plaintext := by
    rw [hp]
    decide
  have hendless : endless (lower e.tag) = false := by
    rw [hp]
    decide
  obtain ⟨rest, hs⟩ : ∃ rest, s.toList = startText e.tag.toList (charAttrs e.attrs) ++ rest := ⟨_, hs⟩
  refine ⟨Lexer.textTokens text ++ .start (lower e.tag) (marks e) :: Lexer.textTokens (newlines (rest ++ b)), ?_, ?_⟩
  · rw [hs, List.append_assoc, run_open h, Lexer.run_plaintext hmode, Lexer.flush]
    simp only [Lexer.resting, List.append_assoc, List.singleton_append, List.nil_append]
  · rw [nodes_blank htext, nodes_open hendless, decode_marks]

theorem renderHead_cons (h : renderHead (e :: es) = .ok s) :
    ∃ s₁ s₂, renderHeadEntry e = .ok s₁ ∧ renderHead es = .ok s₂ ∧ s = "  " ++ s₁ ++ "\n" ++ s₂ := by
  cases hs₁ : renderHeadEntry e with
  | error err =>
    rw [renderHead, hs₁] at h
    cases h
  | ok s₁ =>
    cases hs₂ : renderHead es with
    | error err =>
      rw [renderHead, hs₁, hs₂] at h
      cases h
    | ok s₂ =>
      rw [renderHead, hs₁, hs₂] at h
      cases h
      exact ⟨s₁, s₂, rfl, rfl, rfl⟩

/-- The lines are read one after the other. The text before a line is blank. -/
theorem run_lines (h : renderHead es = .ok s) (htext : text.all isSpace = true) :
    ∃ out', ((newlines s.toList).foldl Lexer.step (Lexer.resting out text last)).flush.out = out ++ out' ∧ nodes none out' = readLines es := by
  induction es generalizing s out text last with
  | nil =>
    cases h
    refine ⟨Lexer.textTokens text, rfl, ?_⟩
    simpa [readLines, nodes] using nodes_blank htext []
  | cons e es ih =>
    obtain ⟨s₁, s₂, hs₁, hs₂, rfl⟩ := renderHead_cons h
    have hsplit : ("  " ++ s₁ ++ "\n" ++ s₂).toList = ' ' :: ' ' :: (s₁.toList ++ '\n' :: s₂.toList) := by simp
    have hblank : (text ++ [' ', ' ']).all isSpace = true := by
      rw [List.all_append, htext]
      rfl
    have hindent : (newlines ("  " ++ s₁ ++ "\n" ++ s₂).toList).foldl Lexer.step (Lexer.resting out text last) =
        (newlines (s₁.toList ++ '\n' :: s₂.toList)).foldl Lexer.step (Lexer.resting out (text ++ [' ', ' ']) last) := by
      rw [hsplit, newlines_cons (by decide), newlines_cons (by decide), List.foldl_cons, List.foldl_cons]
      simp [Lexer.step, Lexer.resting, Lexer.inData]
    rw [hindent, readLines]
    by_cases hp : lower e.tag = "plaintext".toList
    · rw [if_pos hp]
      exact run_plain hs₁ hp hblank _
    · obtain ⟨out₁, last₁, hrun, hnodes⟩ := @run_entry e s₁ out _ last hs₁ hp hblank ('\n' :: s₂.toList)
      rw [hrun, if_neg hp, newlines_cons (by decide), List.foldl_cons]
      have hline : Lexer.step (Lexer.resting (out ++ out₁) [] last₁) '\n' = Lexer.resting (out ++ out₁) ['\n'] last₁ := rfl
      obtain ⟨out₂, hout₂, hrest⟩ := @ih s₂ (out ++ out₁) ['\n'] last₁ hs₂ rfl
      rw [hline, hout₂]
      refine ⟨out₁ ++ out₂, List.append_assoc _ _ _, ?_⟩
      rw [hnodes, hrest]

theorem read_renderHead (h : renderHead es = .ok s) : Html.read s.toList = readLines es := by
  obtain ⟨out', hout, hnodes⟩ := @run_lines es s [] [] [] h rfl
  rw [Html.read, Html.tokens, ← hnodes]
  exact congrArg (nodes none) hout

end lines

/-! ## The html and body tags -/

/-- The attributes of the html tag, on which `lang` is ignored. -/
def htmlAttrs (lang : String) (attrs : GoMap String) : List (String × String) :=
  ("lang", lang) :: (sorted attrs).filter fun a => lower a.1 ≠ "lang".toList

section tags

variable {as : List (String × String)} {attrs : GoMap String} {lang name s : String}

theorem renderTagAttrs_ok {tag markup : String} (h : renderTagAttrs attrs tag = .ok markup) :
    refused attrs = none ∧ markup = renderAttrs attrs := by
  unfold renderTagAttrs at h
  split at h
  · cases h
  · rename_i hrefused
    cases h
    exact ⟨hrefused, rfl⟩

theorem renderHTMLTag_ok (h : renderHTMLTag lang attrs = .ok s) :
    refused attrs = none ∧ s.toList = startText "html".toList ((("lang", lang) :: sorted attrs).map charAttr) := by
  cases hattrs : renderTagAttrs attrs "html" with
  | error err =>
    rw [renderHTMLTag, hattrs] at h
    cases h
  | ok markup =>
    rw [renderHTMLTag, hattrs] at h
    cases h
    obtain ⟨hrefused, rfl⟩ := renderTagAttrs_ok hattrs
    refine ⟨hrefused, ?_⟩
    simp [startText, attrText, charAttr, charAttrs, toList_renderAttrs, toList_escapeHTML]

theorem renderBodyTag_ok (h : renderBodyTag attrs = .ok s) :
    refused attrs = none ∧ s.toList = startText "body".toList ((sorted attrs).map charAttr) := by
  cases hattrs : renderTagAttrs attrs "body" with
  | error err =>
    rw [renderBodyTag, hattrs] at h
    cases h
  | ok markup =>
    rw [renderBodyTag, hattrs] at h
    cases h
    obtain ⟨hrefused, rfl⟩ := renderTagAttrs_ok hattrs
    refine ⟨hrefused, ?_⟩
    simp [startText, toList_renderAttrs, charAttrs]

/-- A start tag alone is one token, with the attributes that are read of it. -/
theorem tokens_tag (hname : name = "html" ∨ name = "body") (has : ∀ a ∈ as, attrRE a.1 = true) :
    ∃ read, Html.tokens (startText name.toList (as.map charAttr)) = [.start name.toList read] ∧ decodeAttrs read = seen as := by
  refine ⟨((texts as).map readAttr).foldl Lexer.push [], ?_, decode_texts⟩
  have hplain : ∃ c cs, name.toList = c :: cs ∧ c.isAlpha = true ∧ c ≠ '/' ∧ (∀ d ∈ cs, Plain d) ∧ '\r' ∉ name.toList ∧
      (c :: cs).map Char.toLower = c :: cs ∧ content (c :: cs) = .data := by
    rcases hname with rfl | rfl
    · refine ⟨'h', "tml".toList, rfl, by decide, by decide, fun d hd => ?_, by decide, by decide, by decide⟩
      exact plain_of_isAlphanum (List.all_eq_true.1 (by decide : "tml".toList.all Char.isAlphanum = true) d hd)
    · refine ⟨'b', "ody".toList, rfl, by decide, by decide, fun d hd => ?_, by decide, by decide, by decide⟩
      exact plain_of_isAlphanum (List.all_eq_true.1 (by decide : "ody".toList.all Char.isAlphanum = true) d hd)
  obtain ⟨c, cs, htext, hc, hne, hcs, hreturn, hlower, hmode⟩ := hplain
  have hnormal := newlines_startText hreturn (noReturn_charAttrs has) []
  rw [newlines_charAttrs, List.append_nil, newlines, List.append_nil, htext] at hnormal
  have hrun := @Lexer.run_start [] [] [] cs (texts as) c hc hne hcs (plain_texts has)
  rw [hlower, hmode] at hrun
  rw [Html.tokens, htext, hnormal]
  exact (congrArg (fun l => (Lexer.flush l).out) hrun).trans (by rfl)

theorem seen_htmlAttrs : seen (("lang", lang) :: sorted attrs) = seen (htmlAttrs lang attrs) := by
  have hlang : "lang".toList ∈ (Lexer.push [] (lower "lang", readValue lang.toList)).map (·.1) := by
    simp [Lexer.push, lower]
  rw [seen, List.map_cons, List.foldl_cons, foldl_push_filter hlang, htmlAttrs, seen, List.map_cons, List.foldl_cons, List.filter_map]
  rfl

end tags

/-! ## What the markup says -/

/-- Attributes that make the browser act. -/
def Denied (name : Name) : Prop := "on".toList.isPrefixOf name = true ∨ name = "http-equiv".toList

/-- An entry as an element that is closed by its own end tag, or has none. -/
def entryNode (e : HeadEntry) : Node := .element (lower e.tag) (given (sorted e.attrs)) true

/-- One element for each entry with the attributes it has, and none that is refused in some letter case. -/
structure Faithful (es : List HeadEntry) (read : List Node) : Prop where
  elements : read = es.map entryNode
  tags : ∀ name attrs closed, .element name attrs closed ∈ read → name ∉ denyTags.map String.toList
  attrs : ∀ name attrs closed, .element name attrs closed ∈ read → ∀ a ∈ attrs, ¬ Denied a.1

/-- A start tag with the attributes it is given. -/
structure FaithfulTag (name : String) (as : List (String × String)) (read : List Token) : Prop where
  element : ∃ attrs, read = [.start name.toList attrs] ∧ decodeAttrs attrs = given as
  attrs : ∀ name attrs, .start name attrs ∈ read → ∀ a ∈ attrs, ¬ Denied a.1

/-- The name of an element that is made where its start tag stands, and that an end tag can end. -/
def Placed (name : Name) : Prop := name ∉ strayNames ∧ name ≠ "image".toList ∧ name ≠ "plaintext".toList

/-- An entry that HTML does not read in another way: its tag is refused in no letter case, makes an element where it stands,
and is known to have no end tag in this letter case or leaves nothing outside the element. -/
structure CleanEntry (e : HeadEntry) : Prop where
  allowed : lower e.tag ∉ denyTags.map String.toList
  placed : Placed (lower e.tag)
  void : lower e.tag ∈ voidNames → e.tag ∈ voidElements ∨ (blank e.children = true ∧ lower e.tag ≠ "br".toList)
  attrs : CleanAttrs (sorted e.attrs)

section claims

variable {e : HeadEntry} {es : List HeadEntry} {as : List (String × String)} {attrs : GoMap String} {s : String}

theorem not_denied {name : String} (h : denyAttr name = false) : ¬ Denied (lower name) := by
  have hlower : (toLower name).toList = lower name := String.toList_ofList
  unfold denyAttr at h
  dsimp only at h
  rw [hlower] at h
  split at h
  · cases h
  · rename_i hon
    rintro (hevent | hname)
    · exact hon hevent
    · exact of_decide_eq_false h (String.toList_injective (hlower.trans hname))

theorem endless_iff (name : Name) : endless name = true ↔ name ∈ voidNames ∨ name ∈ strayNames ∨ name = "image".toList := by
  simp [endless, or_assoc]

theorem placed_nodesOf (hp : lower e.tag ≠ "plaintext".toList) {name : Name} {attrs : Attrs} {closed : Bool}
    (h : .element name attrs closed ∈ nodesOf e) : Placed name := by
  have hbr : Placed "br".toList := ⟨by decide, by decide, by decide⟩
  have himg : Placed "img".toList := ⟨by decide, by decide, by decide⟩
  unfold nodesOf at h
  split at h
  · rcases List.mem_append.1 h with h | h
    · unfold lone at h
      split at h
      · cases h
      · rename_i hstray
        split at h
        · cases List.mem_singleton.1 h
          exact himg
        · rename_i himage
          cases List.mem_singleton.1 h
          exact ⟨hstray, himage, hp⟩
    · split at h
      · cases h
      · unfold loose at h
        rcases List.mem_append.1 h with h | h
        · split at h
          · cases h
          · cases List.mem_singleton.1 h
        · split at h
          · rename_i hname
            cases List.mem_singleton.1 h
            exact hname ▸ hbr
          · cases h
  · rename_i hendless
    cases List.mem_singleton.1 h
    rw [endless_iff, not_or, not_or] at hendless
    exact ⟨hendless.2.1, hendless.2.2, hp⟩

theorem placed_readLines {name : Name} {attrs : Attrs} (h : .element name attrs true ∈ readLines es) : Placed name := by
  induction es with
  | nil => cases h
  | cons e es ih =>
    unfold readLines at h
    split at h
    · cases List.mem_singleton.1 h
    · rename_i hp
      rcases List.mem_append.1 h with h | h
      · exact placed_nodesOf hp h
      · exact ih h

/-- What an entry leaves outside its element. -/
def rest (e : HeadEntry) : List Node := if lower e.tag ∈ voidNames ∧ e.tag ∉ voidElements then loose e else []

theorem nodesOf_placed (h : Placed (lower e.tag)) : nodesOf e = .element (lower e.tag) (seen (sorted e.attrs)) true :: rest e := by
  obtain ⟨hstray, himage, -⟩ := h
  unfold nodesOf rest
  by_cases hvoid : lower e.tag ∈ voidNames
  · rw [if_pos ((endless_iff _).2 (.inl hvoid)), lone, if_neg hstray, if_neg himage, List.singleton_append]
    by_cases hknown : e.tag ∈ voidElements
    · rw [if_pos hknown, if_neg (fun hboth => hboth.2 hknown)]
    · rw [if_neg hknown, if_pos ⟨hvoid, hknown⟩]
  · have hendless : endless (lower e.tag) ≠ true := by
      rw [Ne, endless_iff]
      exact fun hor => hor.elim hvoid (fun hor => hor.elim hstray himage)
    rw [if_neg hendless, if_neg (fun hboth => hvoid hboth.1)]

theorem readLines_placed (h : ∀ e ∈ es, Placed (lower e.tag)) :
    readLines es = es.flatMap fun e => .element (lower e.tag) (seen (sorted e.attrs)) true :: rest e := by
  induction es with
  | nil => rfl
  | cons e es ih =>
    have he := h e List.mem_cons_self
    rw [readLines, if_neg he.2.2, nodesOf_placed he, ih fun e' he' => h e' (List.mem_cons_of_mem _ he'), List.flatMap_cons]

/-- A list in which each part is one element. -/
theorem heads_of_flatMap {α β : Type} {xs : List α} {f h : α → β} {g : α → List β} (heq : (xs.flatMap fun x => f x :: g x) = xs.map h) :
    ∀ x ∈ xs, f x = h x ∧ g x = [] := by
  have hlength : ∀ ys : List α, ys.length ≤ (ys.flatMap fun x => f x :: g x).length := by
    intro ys
    induction ys with
    | nil => exact le_refl _
    | cons y ys ih =>
      simp only [List.flatMap_cons, List.length_append, List.length_cons]
      omega
  induction xs with
  | nil => exact fun x hx => absurd hx List.not_mem_nil
  | cons x xs ih =>
    rw [List.flatMap_cons, List.map_cons, List.cons_append] at heq
    obtain ⟨hhead, htail⟩ := List.cons.inj heq
    have hnil : g x = [] := by
      have hlen := congrArg List.length htail
      have hrest := hlength xs
      rw [List.length_append, List.length_map] at hlen
      exact List.eq_nil_of_length_eq_zero (by omega)
    intro y hy
    rcases List.mem_cons.1 hy with rfl | hy
    · exact ⟨hhead, hnil⟩
    · rw [hnil, List.nil_append] at htail
      exact ih htail y hy

theorem rest_eq_nil : rest e = [] ↔ (lower e.tag ∈ voidNames → e.tag ∈ voidElements ∨ (blank e.children = true ∧ lower e.tag ≠ "br".toList)) := by
  unfold rest loose
  by_cases hvoid : lower e.tag ∈ voidNames ∧ e.tag ∉ voidElements
  · rw [if_pos hvoid]
    by_cases hblank : blank e.children = true
    · simp [hvoid.1, hvoid.2, hblank]
    · simp [hvoid.1, hvoid.2, hblank]
  · rw [if_neg hvoid]
    refine ⟨fun _ hname => .inl (not_not.1 fun hknown => hvoid ⟨hname, hknown⟩), fun _ => rfl⟩

theorem not_denied_given {as : List (String × String)} (h : ∀ a ∈ as, denyAttr a.1 = false) : ∀ a ∈ given as, ¬ Denied a.1 := by
  intro a ha
  obtain ⟨a, ha', rfl⟩ := List.mem_map.1 ha
  exact not_denied (h a ha')

theorem accepted (h : renderHead es = .ok s) : ∀ e ∈ es, refused e.attrs = none := by
  induction es generalizing s with
  | nil => exact fun e he => absurd he List.not_mem_nil
  | cons e es ih =>
    obtain ⟨s₁, s₂, hs₁, hs₂, -⟩ := renderHead_cons h
    obtain ⟨-, -, hrefused, -⟩ := renderHeadEntry_ok hs₁
    intro e' he'
    rcases List.mem_cons.1 he' with rfl | he'
    · exact hrefused
    · exact ih hs₂ e' he'

theorem clean_of_faithful (h : Faithful es (readLines es)) : ∀ e ∈ es, CleanEntry e := by
  have hmem : ∀ e ∈ es, entryNode e ∈ readLines es := fun e he => h.elements ▸ List.mem_map_of_mem he
  have hplaced : ∀ e ∈ es, Placed (lower e.tag) := fun e he => placed_readLines (hmem e he)
  have heq := h.elements
  rw [readLines_placed hplaced] at heq
  intro e he
  obtain ⟨hnode, hrest⟩ := heads_of_flatMap heq e he
  refine ⟨h.tags _ _ _ (hmem e he), hplaced e he, rest_eq_nil.1 hrest, seen_eq_iff.1 ?_⟩
  exact (Node.element.inj hnode).2.1

theorem faithful_of_clean (haccepted : ∀ e ∈ es, refused e.attrs = none) (h : ∀ e ∈ es, CleanEntry e) : Faithful es (readLines es) := by
  have hread : readLines es = es.map entryNode := by
    rw [readLines_placed fun e he => (h e he).placed]
    refine List.flatMap_congr (fun e he => ?_) |>.trans (List.flatMap_pure_eq_map entryNode es)
    rw [rest_eq_nil.2 (h e he).void, seen_eq_iff.2 (h e he).attrs]
    rfl
  have hofEntry : ∀ name attrs closed, .element name attrs closed ∈ readLines es →
      ∃ e ∈ es, name = lower e.tag ∧ attrs = given (sorted e.attrs) := by
    intro name attrs closed hmem
    rw [hread] at hmem
    obtain ⟨e, he, hnode⟩ := List.mem_map.1 hmem
    exact ⟨e, he, (Node.element.inj hnode).1.symm, (Node.element.inj hnode).2.1.symm⟩
  refine ⟨hread, fun name attrs closed hmem => ?_, fun name attrs closed hmem => ?_⟩
  · obtain ⟨e, he, rfl, -⟩ := hofEntry name attrs closed hmem
    exact (h e he).allowed
  · obtain ⟨e, he, -, rfl⟩ := hofEntry name attrs closed hmem
    exact not_denied_given fun a ha => (refused_eq_none (haccepted e he) ha).2

theorem faithfulTag_iff {name : String} {read : List Token} {attrs : Attrs} (has : ∀ a ∈ as, denyAttr a.1 = false)
    (hread : read = [.start name.toList attrs]) (hseen : decodeAttrs attrs = seen as) : FaithfulTag name as read ↔ CleanAttrs as := by
  rw [← seen_eq_iff, hread]
  constructor
  · rintro ⟨⟨attrs', hattrs, hgiven⟩, -⟩
    rw [← (Token.start.inj (List.cons.inj hattrs).1).2, hseen] at hgiven
    exact hgiven
  · intro h
    refine ⟨⟨attrs, rfl, hseen.trans h⟩, fun name' attrs' hmem a ha => ?_⟩
    obtain ⟨rfl, rfl⟩ := Token.start.inj (List.mem_singleton.1 hmem)
    have hdecoded : (a.1, decode a.2) ∈ given as := by
      rw [← h, ← hseen]
      exact List.mem_map_of_mem ha
    exact not_denied_given has (a.1, decode a.2) hdecoded

/-- The markup of entries, and of the html and body tags, is read as what they say exactly if they are clean. -/
theorem markup_faithful (es : List HeadEntry) (lang : String) (attrs : GoMap String) :
    (∀ s, renderHead es = .ok s → (Faithful es (Html.read s.toList) ↔ ∀ e ∈ es, CleanEntry e)) ∧
    (∀ s, renderHTMLTag lang attrs = .ok s →
      (FaithfulTag "html" (htmlAttrs lang attrs) (Html.tokens s.toList) ↔ CleanAttrs (htmlAttrs lang attrs))) ∧
    (∀ s, renderBodyTag attrs = .ok s → (FaithfulTag "body" (sorted attrs) (Html.tokens s.toList) ↔ CleanAttrs (sorted attrs))) := by
  refine ⟨fun s h => ?_, fun s h => ?_, fun s h => ?_⟩
  · rw [read_renderHead h]
    exact ⟨clean_of_faithful, faithful_of_clean (accepted h)⟩
  · obtain ⟨hrefused, hs⟩ := renderHTMLTag_ok h
    have hnames : ∀ a ∈ ("lang", lang) :: sorted attrs, attrRE a.1 = true ∧ denyAttr a.1 = false := by
      intro a ha
      rcases List.mem_cons.1 ha with rfl | ha
      · exact ⟨(by decide : attrRE "lang" = true), (by decide : denyAttr "lang" = false)⟩
      · exact refused_eq_none hrefused ha
    obtain ⟨read, htokens, hseen⟩ := tokens_tag (.inl rfl) fun a ha => (hnames a ha).1
    rw [hs]
    refine faithfulTag_iff (fun a ha => ?_) htokens (hseen.trans seen_htmlAttrs)
    rcases List.mem_cons.1 ha with rfl | ha
    · exact (hnames _ List.mem_cons_self).2
    · exact (hnames a (List.mem_cons_of_mem _ (List.mem_filter.1 ha).1)).2
  · obtain ⟨hrefused, hs⟩ := renderBodyTag_ok h
    obtain ⟨read, htokens, hseen⟩ := tokens_tag (.inr rfl) fun a ha => (refused_eq_none hrefused ha).1
    rw [hs]
    exact faithfulTag_iff (fun a ha => (refused_eq_none hrefused ha).2) htokens hseen

end claims

/-- An icon, with a name that has to be escaped. -/
def icon : HeadEntry := { tag := "link", attrs := AList.insert "title" "A & \"B\"" (AList.insert "rel" "icon" ∅), children := "" }

theorem icon_attrs : sorted icon.attrs = [("rel", "icon"), ("title", "A & \"B\"")] := by decide

theorem icon_faithful : renderHead [icon] = .ok "  <link rel=\"icon\" title=\"A &amp; &#34;B&#34;\">\n" ∧
    Faithful [icon] (Html.read "  <link rel=\"icon\" title=\"A &amp; &#34;B&#34;\">\n".toList) := by
  have hrender : renderHead [icon] = .ok "  <link rel=\"icon\" title=\"A &amp; &#34;B&#34;\">\n" := by decide
  refine ⟨hrender, ((markup_faithful [icon] "" ∅).1 _ hrender).2 fun e he => ?_⟩
  obtain rfl := List.mem_singleton.1 he
  refine ⟨by decide, ⟨by decide, by decide, by decide⟩, fun _ => .inl (by decide), ?_⟩
  rw [icon_attrs]
  exact ⟨by decide, by decide⟩

def loudScript : HeadEntry := { tag := "SCRIPT", attrs := ∅, children := "alert(1)" }

/-- A script in capitals is accepted. -/
theorem loud_script_read : ¬ ∀ es s, renderHead es = .ok s → Faithful es (Html.read s.toList) := by
  intro h
  have hrender : renderHead [loudScript] = .ok "  <SCRIPT>alert(1)</SCRIPT>\n" := by decide
  have hread : Html.read "  <SCRIPT>alert(1)</SCRIPT>\n".toList = [.element "script".toList [] true] := by decide
  have htags := (h _ _ hrender).tags "script".toList [] true
  rw [hread] at htags
  exact htags List.mem_cons_self (by decide)

end Ploykit.Renderx.Head

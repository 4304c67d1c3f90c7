import Mathlib.Data.List.Forall2
import Ploykit.Platform.Text

/-!
# Accept-Encoding

The elements of the header with their weights, and `acceptsBrotli` of `platform/webx/precompressed.go`.
`strconv.ParseFloat` is a function that says of a text whether it reads as a number that is not positive.
-/

namespace Ploykit.Webx.AcceptEncoding

/-! ## The grammar -/

def isOWS (c : Char) : Bool := c = ' ' || c = '\t'

def isTchar (c : Char) : Bool := c.isAlphanum || c ∈ "!#$%&'*+-.^_|~".toList || c.val = 0x60

/-- `qvalue`: the digit before the point, and at most three after it. -/
inductive QValue : List Char → Prop where
  | zero : QValue ['0']
  | fraction {ds : List Char} (hds : ds.length ≤ 3) (hdigits : ∀ c ∈ ds, c.isDigit = true) : QValue ('0' :: '.' :: ds)
  | one : QValue ['1']
  | ones {ds : List Char} (hds : ds.length ≤ 3) (hzeros : ∀ c ∈ ds, c = '0') : QValue ('1' :: '.' :: ds)

def isZero (v : List Char) : Bool := v.all fun c => c = '0' || c = '.'

/-- A content coding with the weight that was given for it. -/
structure Coding where
  name : List Char
  weight : List Char

/-- An element of the list, which may be empty. -/
inductive Element : List Char → Option Coding → Prop where
  | empty {s : List Char} (hs : ∀ c ∈ s, isOWS c = true) : Element s none
  | plain {before name after : List Char} (hbefore : ∀ c ∈ before, isOWS c = true) (hne : name ≠ [])
      (hname : ∀ c ∈ name, isTchar c = true) (hafter : ∀ c ∈ after, isOWS c = true) :
      Element (before ++ name ++ after) (some ⟨name, ['1']⟩)
  | weighted {before name left right v after : List Char} {q : Char} (hbefore : ∀ c ∈ before, isOWS c = true) (hne : name ≠ [])
      (hname : ∀ c ∈ name, isTchar c = true) (hleft : ∀ c ∈ left, isOWS c = true) (hright : ∀ c ∈ right, isOWS c = true)
      (hq : q = 'q' ∨ q = 'Q') (hv : QValue v) (hafter : ∀ c ∈ after, isOWS c = true) :
      Element (before ++ (name ++ left ++ ';' :: (right ++ q :: '=' :: v)) ++ after) (some ⟨name, v⟩)

def fold (name : List Char) : List Char := name.map Strings.foldRune

def Coding.isBr (c : Coding) : Bool := fold c.name = "br".toList

def isBr (e : Option Coding) : Bool := e.any Coding.isBr

def refused (e : Option Coding) : Bool := e.any fun c => isZero c.weight

/-- The elements of the lines joined by commas. -/
def texts (lines : List String) : List (List Char) := lines.flatMap fun line => line.toList.splitOn ','

/-- By the elements brotli is accepted: it is listed and never refused, or everything is accepted and brotli is not listed. -/
def Allows (es : List (Option Coding)) : Prop :=
  (∃ e ∈ es, isBr e = true) ∧ (∀ e ∈ es, isBr e = true → refused e = false) ∨
    (∀ e ∈ es, isBr e = false) ∧ ∃ c, some c ∈ es ∧ c.name = ['*'] ∧ ∀ c', some c' ∈ es → c'.name = ['*'] → isZero c'.weight = false

def Accepts (lines : List String) : Prop := ∃ es, List.Forall₂ Element (texts lines) es ∧ Allows es

/-- The lines are well formed, and no element after the first one for brotli refuses it. -/
def Consistent (lines : List String) : Prop :=
  ∃ es, List.Forall₂ Element (texts lines) es ∧ ∀ e ∈ (es.dropWhile fun e => !isBr e).tail, isBr e = true → refused e = false

/-! ## The reading -/

def trimSpace (s : List Char) : List Char := (s.dropWhile Strings.isSpace).rdropWhile Strings.isSpace

/-- `strings.ToLower`, exact where the lower case is ASCII. -/
def lower (c : Char) : Char := if c.val = 0x212A then 'k' else if c.val = 0x130 then 'i' else c.toLower

section reading

variable (nonpositive : List Char → Bool)

/-- The parameter is a weight that refuses. -/
def refusal (p : List Char) : Bool :=
  let p := (trimSpace p).map lower
  "q=".toList <+: p && nonpositive (trimSpace (p.drop 2))

/-- The name of an element and what stands after the first semicolon. -/
def cut (part : List Char) : List Char × List Char :=
  let token := trimSpace part
  (trimSpace (token.takeWhile (· ≠ ';')), (token.dropWhile (· ≠ ';')).tail)

def acceptsParts : List (List Char) → Bool
  | [] => false
  | part :: parts =>
    if fold (cut part).1 = "br".toList then !(((cut part).2.splitOn ';').any (refusal nonpositive)) else acceptsParts parts

def acceptsBrotli (header : String) : Bool := acceptsParts nonpositive (header.toList.splitOn ',')

end reading

/-! ## Well-formed elements -/

section elements

variable {s t before mid after : List Char} {e : Option Coding}

theorem isSpace_of_isOWS {c : Char} (h : isOWS c = true) : Strings.isSpace c = true := by
  simp only [isOWS, Bool.or_eq_true, decide_eq_true_eq] at h
  rcases h with rfl | rfl <;> rfl

theorem trimSpace_padded (hbefore : ∀ c ∈ before, isOWS c = true) (hmid : Text.Trimmed Strings.isSpace mid)
    (hafter : ∀ c ∈ after, isOWS c = true) : trimSpace (before ++ mid ++ after) = mid :=
  Text.trim_padded (fun c hc => isSpace_of_isOWS (hbefore c hc)) hmid fun c hc => isSpace_of_isOWS (hafter c hc)

theorem trimSpace_left (hbefore : ∀ c ∈ before, isOWS c = true) (hmid : Text.Trimmed Strings.isSpace mid) :
    trimSpace (before ++ mid) = mid := by
  have h : trimSpace (before ++ mid ++ []) = mid := trimSpace_padded hbefore hmid (by simp)
  simpa using h

theorem trimSpace_right (hmid : Text.Trimmed Strings.isSpace mid) (hafter : ∀ c ∈ after, isOWS c = true) :
    trimSpace (mid ++ after) = mid := by
  have h : trimSpace ([] ++ mid ++ after) = mid := trimSpace_padded (by simp) hmid hafter
  simpa using h

theorem trimmed_between {p : Char → Bool} (hs : Text.Trimmed p s) (hsne : s ≠ []) (ht : Text.Trimmed p t) (htne : t ≠ []) (m : List Char) :
    Text.Trimmed p (s ++ (m ++ t)) := by
  constructor
  · rw [List.head?_append_of_ne_nil _ hsne]
    exact hs.head
  · rw [List.getLast?_append_of_ne_nil _ (List.append_ne_nil_of_right_ne_nil _ htne), List.getLast?_append_of_ne_nil _ htne]
    exact ht.last

theorem not_isSpace_tchar {c : Char} (h : isTchar c = true) : Strings.isSpace c = false := by
  rcases Bool.or_eq_true_iff.1 h with h | h
  · rcases Bool.or_eq_true_iff.1 h with h | h
    · have hbounds := Text.toNat_of_isAlphanum h
      exact Text.isSpace_of_visible (by omega) (by omega)
    · have hall : ("!#$%&'*+-.^_|~".toList.all fun c => !Strings.isSpace c) = true := by decide
      simpa using List.all_eq_true.1 hall c (of_decide_eq_true h)
  · have hval : c.toNat = 0x60 := congrArg UInt32.toNat (of_decide_eq_true h)
    exact Text.isSpace_of_visible (by omega) (by omega)

theorem isTchar_ne {c d : Char} (h : isTchar c = true) (hd : isTchar d = false) : c ≠ d := by
  rintro rfl
  rw [h] at hd
  cases hd

theorem QValue.chars {v : List Char} (h : QValue v) : v ≠ [] ∧ ∀ c ∈ v, c.isDigit = true ∨ c = '.' := by
  cases h with
  | zero => exact ⟨List.cons_ne_nil _ _, by simp⟩
  | one => exact ⟨List.cons_ne_nil _ _, by simp⟩
  | fraction hds hdigits =>
    refine ⟨List.cons_ne_nil _ _, fun c hc => ?_⟩
    rcases List.mem_cons.1 hc with rfl | hc
    · exact .inl rfl
    · rcases List.mem_cons.1 hc with rfl | hc
      · exact .inr rfl
      · exact .inl (hdigits c hc)
  | ones hds hzeros =>
    refine ⟨List.cons_ne_nil _ _, fun c hc => ?_⟩
    rcases List.mem_cons.1 hc with rfl | hc
    · exact .inl rfl
    · rcases List.mem_cons.1 hc with rfl | hc
      · exact .inr rfl
      · rw [hzeros c hc]
        exact .inl rfl

theorem not_isSpace_qvalue {v : List Char} (h : QValue v) {c : Char} (hc : c ∈ v) : Strings.isSpace c = false := by
  rcases h.chars.2 c hc with hdigit | rfl
  · exact not_isSpace_tchar (by simp [isTchar, Char.isAlphanum, hdigit])
  · rfl

theorem not_isSpace_q {q : Char} (hq : q = 'q' ∨ q = 'Q') : Strings.isSpace q = false := by
  rcases hq with rfl | rfl <;> rfl

theorem trimmed_name {name : List Char} (hname : ∀ c ∈ name, isTchar c = true) : Text.Trimmed Strings.isSpace name :=
  Text.trimmed_of_forall fun c hc => not_isSpace_tchar (hname c hc)

theorem trimmed_weight {q : Char} {v : List Char} (hq : q = 'q' ∨ q = 'Q') (hv : QValue v) : Text.Trimmed Strings.isSpace (q :: '=' :: v) := by
  refine Text.trimmed_of_forall fun c hc => ?_
  rcases List.mem_cons.1 hc with rfl | hc
  · exact not_isSpace_q hq
  · rcases List.mem_cons.1 hc with rfl | hc
    · rfl
    · exact not_isSpace_qvalue hv hc

theorem cut_empty (hs : ∀ c ∈ s, isOWS c = true) : cut s = ([], []) := by
  have htrim : trimSpace s = [] := by
    have hnil : Text.Trimmed Strings.isSpace [] := ⟨by simp, by simp⟩
    simpa using trimSpace_left hs hnil
  rw [cut, htrim]
  rfl

theorem cut_plain {name : List Char} (hbefore : ∀ c ∈ before, isOWS c = true) (hname : ∀ c ∈ name, isTchar c = true)
    (hafter : ∀ c ∈ after, isOWS c = true) : cut (before ++ name ++ after) = (name, []) := by
  have hsemi : ∀ c ∈ name, decide (c ≠ ';') = true := fun c hc => decide_eq_true (isTchar_ne (hname c hc) (by decide))
  have hname' : trimSpace name = name := Text.trim_self (trimmed_name hname)
  have htake : name.takeWhile (· ≠ ';') = name := List.takeWhile_eq_self_iff.2 hsemi
  have hdrop : name.dropWhile (· ≠ ';') = [] := List.dropWhile_eq_nil_iff.2 hsemi
  rw [cut, trimSpace_padded hbefore (trimmed_name hname) hafter, htake, hdrop, hname']
  rfl

theorem cut_weighted {name left right v : List Char} {q : Char} (hbefore : ∀ c ∈ before, isOWS c = true) (hne : name ≠ [])
    (hname : ∀ c ∈ name, isTchar c = true) (hleft : ∀ c ∈ left, isOWS c = true) (hq : q = 'q' ∨ q = 'Q') (hv : QValue v)
    (hafter : ∀ c ∈ after, isOWS c = true) :
    cut (before ++ (name ++ left ++ ';' :: (right ++ q :: '=' :: v)) ++ after) = (name, right ++ q :: '=' :: v) := by
  have hmid : Text.Trimmed Strings.isSpace (name ++ left ++ ';' :: (right ++ q :: '=' :: v)) := by
    have h := trimmed_between (trimmed_name hname) hne (trimmed_weight hq hv) (List.cons_ne_nil _ _) (left ++ ';' :: right)
    simpa using h
  have hsemi : ∀ c ∈ name ++ left, decide (c ≠ ';') = true := by
    intro c hc
    rcases List.mem_append.1 hc with hc | hc
    · exact decide_eq_true (isTchar_ne (hname c hc) (by decide))
    · refine decide_eq_true ?_
      rintro rfl
      exact absurd (hleft _ hc) (by decide)
  have hname' : trimSpace (name ++ left) = name := trimSpace_right (trimmed_name hname) hleft
  have htake : (name ++ left ++ ';' :: (right ++ q :: '=' :: v)).takeWhile (· ≠ ';') = name ++ left := by
    rw [List.takeWhile_append_of_pos hsemi, List.takeWhile_cons_of_neg (by decide), List.append_nil]
  have hdrop : (name ++ left ++ ';' :: (right ++ q :: '=' :: v)).dropWhile (· ≠ ';') = ';' :: (right ++ q :: '=' :: v) := by
    rw [List.dropWhile_append_of_pos hsemi, List.dropWhile_cons_of_neg (by decide)]
  rw [cut, trimSpace_padded hbefore hmid hafter, htake, hdrop, hname']
  rfl

theorem lower_digit {c : Char} (h : c.isDigit = true) : lower c = c := by
  have hall : ∀ n ≤ 0x39, 0x30 ≤ n → lower (Char.ofNat n) = Char.ofNat n := by decide
  have hbounds := Text.toNat_of_isDigit h
  exact Char.ofNat_toNat c ▸ hall c.toNat hbounds.2 hbounds.1

theorem lower_qvalue {v : List Char} (h : QValue v) : v.map lower = v := by
  refine (List.map_congr_left fun c hc => ?_).trans (List.map_id v)
  rcases h.chars.2 c hc with hdigit | rfl
  · exact lower_digit hdigit
  · rfl

theorem semicolon_notMem_weight {right v : List Char} {q : Char} (hright : ∀ c ∈ right, isOWS c = true) (hq : q = 'q' ∨ q = 'Q')
    (hv : QValue v) : ';' ∉ right ++ q :: '=' :: v := by
  intro h
  rcases List.mem_append.1 h with h | h
  · exact absurd (hright _ h) (by decide)
  · rcases List.mem_cons.1 h with rfl | h
    · rcases hq with hq | hq <;> cases hq
    · rcases List.mem_cons.1 h with hc | h
      · cases hc
      · rcases hv.chars.2 _ h with hc | hc
        · exact absurd hc (by decide)
        · cases hc

theorem refusal_weight (nonpositive : List Char → Bool) {right v : List Char} {q : Char} (hright : ∀ c ∈ right, isOWS c = true)
    (hq : q = 'q' ∨ q = 'Q') (hv : QValue v) : refusal nonpositive (right ++ q :: '=' :: v) = nonpositive v := by
  have htrim : trimSpace (right ++ q :: '=' :: v) = q :: '=' :: v := trimSpace_left hright (trimmed_weight hq hv)
  have hlower : (q :: '=' :: v).map lower = 'q' :: '=' :: v := by
    rw [List.map_cons, List.map_cons, lower_qvalue hv]
    rcases hq with rfl | rfl <;> rfl
  have hv' : trimSpace v = v := Text.trim_self (Text.trimmed_of_forall fun c hc => not_isSpace_qvalue hv hc)
  rw [refusal, htrim, hlower]
  exact (Bool.and_eq_right_iff_imp.2 fun _ => rfl).trans (congrArg nonpositive hv')

/-- The name that is read of an element is the name of its coding. -/
theorem Element.name_br (h : Element s e) : fold (cut s).1 = "br".toList ↔ isBr e = true := by
  cases h with
  | empty hs =>
    rw [cut_empty hs]
    decide
  | plain hbefore _ hname hafter =>
    rw [cut_plain hbefore hname hafter]
    exact decide_eq_true_iff.symm
  | weighted hbefore hne hname hleft _ hq hv hafter =>
    rw [cut_weighted hbefore hne hname hleft hq hv hafter]
    exact decide_eq_true_iff.symm

variable {nonpositive : List Char → Bool}

/-- The parameters that are read refuse exactly if the weight is zero. -/
theorem Element.refuses (hfloat : ∀ v, QValue v → nonpositive v = isZero v) (h : Element s e) (hbr : isBr e = true) :
    ((cut s).2.splitOn ';').any (refusal nonpositive) = refused e := by
  cases h with
  | empty hs => cases hbr
  | plain hbefore _ hname hafter =>
    rw [cut_plain hbefore hname hafter]
    rfl
  | weighted hbefore hne hname hleft hright hq hv hafter =>
    rw [cut_weighted hbefore hne hname hleft hq hv hafter, List.splitOn_eq_singleton (semicolon_notMem_weight hright hq hv), List.any_cons,
      List.any_nil, Bool.or_false, refusal_weight nonpositive hright hq hv, hfloat _ hv]
    rfl

/-! ## Well-formed headers -/

variable {parts : List (List Char)} {es : List (Option Coding)}

/-- The first element for brotli decides. -/
theorem acceptsParts_iff (hfloat : ∀ v, QValue v → nonpositive v = isZero v) (h : List.Forall₂ Element parts es) :
    acceptsParts nonpositive parts = true ↔ ∃ e, es.find? isBr = some e ∧ refused e = false := by
  induction h with
  | nil => simp [acceptsParts]
  | @cons part e parts es hpart _ ih =>
    rw [acceptsParts]
    split
    · rename_i hname
      have hbr := hpart.name_br.1 hname
      rw [hpart.refuses hfloat hbr, List.find?_cons_of_pos hbr, Bool.not_eq_true']
      exact ⟨fun h => ⟨e, rfl, h⟩, fun ⟨_, he, h⟩ => Option.some.inj he ▸ h⟩
    · rename_i hname
      rw [List.find?_cons_of_neg fun hbr => hname (hpart.name_br.2 hbr), ih]

/-- Where the first element for brotli does not refuse it, the later ones decide. -/
theorem allows_iff (hfind : es.find? isBr = some e) (he : refused e = false) :
    Allows es ↔ ∀ e ∈ (es.dropWhile fun e => !isBr e).tail, isBr e = true → refused e = false := by
  obtain ⟨hbr, before, after, rfl, hbefore⟩ := List.find?_eq_some_iff_append.1 hfind
  have hdrop : (before ++ e :: after).dropWhile (fun e => !isBr e) = e :: after := by
    rw [List.dropWhile_append_of_pos hbefore, List.dropWhile_cons_of_neg (by simp [hbr])]
  rw [hdrop, List.tail_cons]
  constructor
  · rintro (⟨-, hall⟩ | ⟨hnone, -⟩)
    · exact fun e' he' => hall e' (List.mem_append_right _ (List.mem_cons_of_mem _ he'))
    · rw [hnone e (List.mem_append_right _ List.mem_cons_self)] at hbr
      cases hbr
  · refine fun hafter => .inl ⟨⟨e, List.mem_append_right _ List.mem_cons_self, hbr⟩, fun e' he' hbr' => ?_⟩
    rcases List.mem_append.1 he' with he' | he'
    · have hnot := hbefore e' he'
      rw [hbr'] at hnot
      cases hnot
    · rcases List.mem_cons.1 he' with rfl | he'
      · exact he
      · exact hafter e' he' hbr'

/-- The header accepts brotli, if the reading of its first line does, exactly if it is well formed and no later element refuses it. -/
theorem accepts_iff (hfloat : ∀ v, QValue v → nonpositive v = isZero v) {lines : List String}
    (h : acceptsBrotli nonpositive (lines.headD "") = true) : Accepts lines ↔ Consistent lines := by
  have hallows : ∀ es, List.Forall₂ Element (texts lines) es →
      (Allows es ↔ ∀ e ∈ (es.dropWhile fun e => !isBr e).tail, isBr e = true → refused e = false) := by
    intro es hes
    cases lines with
    | nil => cases h
    | cons line lines =>
      let n := (line.toList.splitOn ',').length
      have hfirst : List.Forall₂ Element (line.toList.splitOn ',') (es.take n) := (List.forall₂_take_append _ _ _ hes.flip).flip
      obtain ⟨e, hfind, he⟩ := (acceptsParts_iff hfloat hfirst).1 h
      have hall : es.find? isBr = some e := by
        rw [← List.take_append_drop n es, List.find?_append, hfind]
        rfl
      exact allows_iff hall he
  exact exists_congr fun es => and_congr_right (hallows es)

end elements

end Ploykit.Webx.AcceptEncoding

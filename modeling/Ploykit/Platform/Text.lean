import Mathlib.Algebra.GroupWithZero.Nat
import Mathlib.Data.List.DropRight

/-!
# Texts

`strings.TrimSpace`, `CutPrefix`, `CutSuffix` and `EqualFold` on strings of Unicode
characters, and lists separated by commas. `foldRune` folds the characters whose class has
a letter of ASCII, so `equalFold` is exact where one of the two strings is ASCII.
-/

namespace Ploykit.Strings

/-- `unicode.IsSpace` -/
def isSpace (c : Char) : Bool :=
  c = '\t' || c = '\n' || c.val = 0x0B || c.val = 0x0C || c = '\r' || c = ' ' ||
  c.val = 0x85 || c.val = 0xA0 || c.val = 0x1680 || (0x2000 ≤ c.val && c.val ≤ 0x200A) ||
  c.val = 0x2028 || c.val = 0x2029 || c.val = 0x202F || c.val = 0x205F || c.val = 0x3000

def trimSpace (s : String) : String :=
  String.ofList ((s.toList.dropWhile isSpace).reverse.dropWhile isSpace).reverse

def cutPrefix (s pre : String) : Option String :=
  if pre.toList <+: s.toList then some (String.ofList (s.toList.drop pre.toList.length)) else none

def cutSuffix (s suf : String) : Option String :=
  if suf.toList <:+ s.toList then
    some (String.ofList (s.toList.take (s.toList.length - suf.toList.length)))
  else none

/-- The lower-case letter of a character's class: U+212A folds to k and U+017F to s. -/
def foldRune (c : Char) : Char :=
  if c.val = 0x212A then 'k' else if c.val = 0x017F then 's' else c.toLower

def equalFold (s t : String) : Bool := s.toList.map foldRune = t.toList.map foldRune

end Ploykit.Strings

namespace Ploykit

abbrev Text := List Char

namespace Text

variable {s t : Text} {p : Char → Bool}

/-- `len(s)` -/
def size (s : Text) : Nat := (s.map Char.utf8Size).sum

def trim (p : Char → Bool) (s : Text) : Text := (s.dropWhile p).rdropWhile p

def TrimSpace (s : Text) : Text := trim Strings.isSpace s

/-- Neither end of the text is to be trimmed. -/
structure Trimmed (p : Char → Bool) (s : Text) : Prop where
  head : ∀ c ∈ s.head?, p c = false
  last : ∀ c ∈ s.getLast?, p c = false

theorem dropWhile_of_head (h : ∀ c ∈ s.head?, p c = false) : s.dropWhile p = s := by
  cases s with
  | nil => rfl
  | cons c s => simp [h c rfl]

theorem rdropWhile_of_last (h : ∀ c ∈ s.getLast?, p c = false) : s.rdropWhile p = s := by
  rw [List.rdropWhile, dropWhile_of_head, List.reverse_reverse]
  rwa [List.head?_reverse]

theorem trim_self (h : Trimmed p s) : trim p s = s := by
  rw [trim, dropWhile_of_head h.head, rdropWhile_of_last h.last]

theorem head_dropWhile (p : Char → Bool) (s : Text) : ∀ c ∈ (s.dropWhile p).head?, p c = false := by
  intro c hc
  have hne : s.dropWhile p ≠ [] := fun hnil => by simp [hnil] at hc
  have hhead := List.head_dropWhile_not p hne
  rwa [← Option.some.inj ((List.head?_eq_some_head hne).symm.trans hc)]

theorem trimmed_trim (p : Char → Bool) (s : Text) : Trimmed p (trim p s) where
  head c hc := by
    obtain ⟨t, ht⟩ := List.rdropWhile_prefix p (s.dropWhile p)
    refine head_dropWhile p s c ?_
    rw [← ht, List.head?_append, show (List.rdropWhile p (s.dropWhile p)).head? = some c from hc]
    rfl
  last c hc := by
    rw [trim, List.rdropWhile, List.getLast?_reverse] at hc
    exact head_dropWhile p _ c hc

theorem trim_trim (p : Char → Bool) (s : Text) : trim p (trim p s) = trim p s := trim_self (trimmed_trim p s)

/-- What is cut off on both sides is to be trimmed. -/
theorem exists_trim (p : Char → Bool) (s : Text) :
    ∃ l r, s = l ++ trim p s ++ r ∧ (∀ c ∈ l, p c = true) ∧ ∀ c ∈ r, p c = true := by
  refine ⟨s.takeWhile p, (s.dropWhile p).rtakeWhile p, ?_, fun c hc => List.mem_takeWhile_imp hc, fun c hc => List.mem_rtakeWhile_imp hc⟩
  rw [List.append_assoc, trim, List.rdropWhile_append_rtakeWhile, List.takeWhile_append_dropWhile]

/-- Blanks around a trimmed text are trimmed off. -/
theorem trim_padded {l r : Text} (hl : ∀ c ∈ l, p c = true) (hs : Trimmed p s) (hr : ∀ c ∈ r, p c = true) :
    trim p (l ++ s ++ r) = s := by
  have hleft : ∀ t : Text, (l ++ t).dropWhile p = t.dropWhile p := fun t => List.dropWhile_append_of_pos hl
  have hright : ∀ t : Text, (t ++ r).rdropWhile p = t.rdropWhile p := by
    intro t
    rw [List.rdropWhile, List.reverse_append, List.dropWhile_append_of_pos fun c hc => hr c (List.mem_reverse.1 hc)]
    rfl
  rw [trim, List.append_assoc, hleft]
  cases s with
  | nil =>
    have hnil : r.dropWhile p = [] := List.dropWhile_eq_nil_iff.2 hr
    simp [hnil]
  | cons c s =>
    have hhead : (c :: s ++ r).dropWhile p = c :: s ++ r := dropWhile_of_head fun d hd => hs.head d hd
    rw [hhead, hright, rdropWhile_of_last hs.last]

theorem mem_of_mem_trim {c : Char} (h : c ∈ trim p s) : c ∈ s := by
  obtain ⟨l, r, hs, -⟩ := exists_trim p s
  rw [hs]
  exact List.mem_append_left r (List.mem_append_right l h)

theorem size_append : size (s ++ t) = size s + size t := by
  simp [size]

theorem size_trim_le (p : Char → Bool) (s : Text) : size (trim p s) ≤ size s := by
  obtain ⟨l, r, hs, -⟩ := exists_trim p s
  conv => rhs; rw [hs]
  rw [size_append, size_append]
  omega

theorem length_trim_le (p : Char → Bool) (s : Text) : (trim p s).length ≤ s.length := by
  obtain ⟨l, r, hs, -⟩ := exists_trim p s
  conv => rhs; rw [hs]
  rw [List.length_append, List.length_append]
  omega

theorem isSpace_of_visible {c : Char} (hlow : 0x21 ≤ c.toNat) (hhigh : c.toNat ≤ 0x7E) : Strings.isSpace c = false := by
  have hall : ∀ n ≤ 0x7E, 0x21 ≤ n → Strings.isSpace (Char.ofNat n) = false := by decide
  exact Char.ofNat_toNat c ▸ hall c.toNat hhigh hlow

theorem toNat_of_isDigit {c : Char} (h : c.isDigit = true) : 0x30 ≤ c.toNat ∧ c.toNat ≤ 0x39 :=
  (Bool.and_eq_true_iff.1 h).imp of_decide_eq_true of_decide_eq_true

/-- Letters and digits lie between `0` and `z`. -/
theorem toNat_of_isAlphanum {c : Char} (h : c.isAlphanum = true) : 0x30 ≤ c.toNat ∧ c.toNat ≤ 0x7A := by
  rcases Bool.or_eq_true_iff.1 h with h | h
  · rcases Bool.or_eq_true_iff.1 h with h | h
    · have hupper : 0x41 ≤ c.toNat ∧ c.toNat ≤ 0x5A := of_decide_eq_true h
      omega
    · have hlower : 0x61 ≤ c.toNat ∧ c.toNat ≤ 0x7A := (Bool.and_eq_true_iff.1 h).imp of_decide_eq_true of_decide_eq_true
      omega
  · have hdigit := toNat_of_isDigit h
    omega

theorem trimmed_of_forall (h : ∀ c ∈ s, p c = false) : Trimmed p s :=
  ⟨fun c hc => h c (List.mem_of_mem_head? hc), fun c hc => h c (List.mem_of_mem_getLast? hc)⟩

/-! ## Lists separated by commas -/

/-- The texts that are not empty and not among those seen, each once. -/
def distinct : List Text → List Text → List Text
  | _, [] => []
  | seen, t :: ts => if t ≠ [] ∧ seen.contains t = false then t :: distinct (t :: seen) ts else distinct seen ts

theorem distinct_spec (seen ts : List Text) :
    (distinct seen ts).Nodup ∧ ∀ t ∈ distinct seen ts, t ∈ ts ∧ t ≠ [] ∧ t ∉ seen := by
  induction ts generalizing seen with
  | nil => simp [distinct]
  | cons t ts ih =>
    unfold distinct
    split
    · rename_i hnew
      have hseen : t ∉ seen := by simpa using hnew.2
      obtain ⟨hnodup, hmem⟩ := ih (t :: seen)
      refine ⟨List.nodup_cons.2 ⟨fun h => (hmem t h).2.2 List.mem_cons_self, hnodup⟩, fun u hu => ?_⟩
      rcases List.mem_cons.1 hu with rfl | hu
      · exact ⟨List.mem_cons_self, hnew.1, hseen⟩
      · obtain ⟨hts, hne, hseen⟩ := hmem u hu
        exact ⟨List.mem_cons_of_mem _ hts, hne, fun h => hseen (List.mem_cons_of_mem _ h)⟩
    · obtain ⟨hnodup, hmem⟩ := ih seen
      exact ⟨hnodup, fun u hu => ⟨List.mem_cons_of_mem _ (hmem u hu).1, (hmem u hu).2⟩⟩

theorem distinct_self {seen ts : List Text} (hnodup : ts.Nodup) (h : ∀ t ∈ ts, t ≠ [] ∧ t ∉ seen) : distinct seen ts = ts := by
  induction ts generalizing seen with
  | nil => rfl
  | cons t ts ih =>
    obtain ⟨hnotMem, hnodup⟩ := List.nodup_cons.1 hnodup
    obtain ⟨hne, hseen⟩ := h t List.mem_cons_self
    rw [distinct, if_pos ⟨hne, by simpa using hseen⟩, ih hnodup fun u hu => ?_]
    refine ⟨(h u (List.mem_cons_of_mem _ hu)).1, fun hmem => ?_⟩
    rcases List.mem_cons.1 hmem with rfl | hmem
    · exact hnotMem hu
    · exact (h u (List.mem_cons_of_mem _ hu)).2 hmem

/-- The parts between the commas, each cleaned. -/
def splitSet (clean : Text → Text) (csv : Text) : List Text := distinct [] ((csv.splitOn ',').map clean)

def join (ts : List Text) : Text := [','].intercalate ts

/-- Parts that are clean and hold no comma are split off again. -/
theorem splitSet_join {clean : Text → Text} (hnil : clean [] = []) {ts : List Text} (hnodup : ts.Nodup)
    (h : ∀ t ∈ ts, t ≠ [] ∧ ',' ∉ t ∧ clean t = t) : splitSet clean (join ts) = ts := by
  by_cases hts : ts = []
  · subst hts
    simp [splitSet, join, List.intercalate, distinct, hnil]
  · have hsplit : (join ts).splitOn ',' = ts := List.splitOn_intercalate ',' (fun t ht => (h t ht).2.1) hts
    have hclean : ts.map clean = ts.map id := List.map_congr_left fun t ht => (h t ht).2.2
    rw [splitSet, hsplit, hclean, List.map_id]
    exact distinct_self hnodup fun t ht => ⟨(h t ht).1, List.not_mem_nil⟩

theorem notMem_of_mem_splitOn {x : Char} {part : Text} (h : part ∈ s.splitOn x) : x ∉ part := by
  induction s generalizing part with
  | nil =>
    rw [List.splitOn_nil, List.mem_singleton] at h
    exact h ▸ List.not_mem_nil
  | cons c s ih =>
    rw [List.splitOn_cons_eq_if_modifyHead] at h
    obtain ⟨first, rest, hsplit⟩ := List.exists_cons_of_ne_nil (List.splitOn_ne_nil x s)
    by_cases hc : (c == x) = true
    · rw [if_pos hc] at h
      rcases List.mem_cons.1 h with rfl | h
      · exact List.not_mem_nil
      · exact ih h
    · rw [if_neg hc, hsplit, List.modifyHead_cons] at h
      rcases List.mem_cons.1 h with rfl | h
      · have hfirst : x ∉ first := ih (hsplit ▸ List.mem_cons_self)
        intro hmem
        rcases List.mem_cons.1 hmem with rfl | hmem
        · exact hc (beq_self_eq_true _)
        · exact hfirst hmem
      · exact ih (hsplit ▸ List.mem_cons_of_mem _ h)

theorem mem_splitSet {clean : Text → Text} {csv t : Text} (h : t ∈ splitSet clean csv) :
    t ≠ [] ∧ ∃ part, ',' ∉ part ∧ clean part = t := by
  obtain ⟨hmem, hne, -⟩ := (distinct_spec [] _).2 t h
  obtain ⟨part, hpart, hclean⟩ := List.mem_map.1 hmem
  exact ⟨hne, part, notMem_of_mem_splitOn hpart, hclean⟩

theorem nodup_splitSet (clean : Text → Text) (csv : Text) : (splitSet clean csv).Nodup := (distinct_spec [] _).1

end Text

end Ploykit

import Mathlib.Data.List.Sort
import Ploykit.Platform.GoString

/-!
# Sanitising

`Sanitize` and `SanitizeDeep` of `platform/redactx/redactx.go`. A value has the shape of
JSON; a map is the list of its entries, and the order in which `range` visits them is
chosen anew at each place of the value.
-/

namespace Ploykit.Redactx

/-! ## Strings -/

/-- How many bytes an encoding that begins with this byte has. -/
def runeSize (c : UInt8) : Nat :=
  if c < 0x80 then 1 else if 0xC2 ≤ c ∧ c ≤ 0xDF then 2 else if 0xE0 ≤ c ∧ c ≤ 0xEF then 3
  else if 0xF0 ≤ c ∧ c ≤ 0xF4 then 4 else 0

def continues (c : UInt8) : Bool := 0x80 ≤ c && c ≤ 0xBF

/-- The second byte of an encoding, which rules out long forms, surrogates and runes that are too large. -/
def second (c d : UInt8) : Bool :=
  continues d && (c ≠ 0xE0 || 0xA0 ≤ d) && (c ≠ 0xED || d ≤ 0x9F) && (c ≠ 0xF0 || 0x90 ≤ d) && (c ≠ 0xF4 || d ≤ 0x8F)

/-- The bytes after the first. -/
def follows (c : UInt8) : GoString → Bool
  | [] => true
  | d :: ds => second c d && ds.all continues

/-- The length of the encoding at the front, 0 if there is none: `utf8.DecodeRuneInString`. -/
def runeLen (c : UInt8) (s : GoString) : Nat :=
  if runeSize c ≤ s.length + 1 ∧ follows c (s.take (runeSize c - 1)) = true then runeSize c else 0

/-- `utf8.ValidString`. The first argument is the number of bytes that belong to the encoding before. -/
def valid : Nat → GoString → Bool
  | _, [] => true
  | n + 1, _ :: s => valid n s
  | 0, c :: s => runeLen c s ≠ 0 && valid (runeLen c s - 1) s

def runeError : GoString := [0xEF, 0xBF, 0xBD]

/-- The loop of `Sanitize`. The first argument is the number of bytes that are copied with the encoding before. -/
def rebuild : Nat → GoString → GoString
  | _, [] => []
  | n + 1, c :: s => c :: rebuild n s
  | 0, c :: s =>
    if c = 0 then rebuild 0 s
    else if runeLen c s = 0 then runeError ++ rebuild 0 s
    else c :: rebuild (runeLen c s - 1) s

def Sanitize (s : GoString) : GoString := if 0 ∉ s ∧ valid 0 s = true then s else rebuild 0 s

/-- Without NUL and valid. -/
def Clean (s : GoString) : Prop := 0 ∉ s ∧ valid 0 s = true

section strings

variable {c : UInt8} {s t : GoString} {n : Nat}

theorem sanitize_of_clean (h : Clean s) : Sanitize s = s := if_pos h

theorem rebuild_eq (n : Nat) (s : GoString) : rebuild n s = s.take n ++ rebuild 0 (s.drop n) := by
  induction n generalizing s with
  | zero => rfl
  | succ n ih =>
    cases s with
    | nil => rfl
    | cons c s => exact congrArg (c :: ·) (ih s)

theorem valid_append (h : s.length = n) : valid n (s ++ t) = valid 0 t := by
  induction s generalizing n with
  | nil => rw [← h]; rfl
  | cons c s ih =>
    rw [← h]
    exact ih rfl

theorem length_of_runeLen (h : runeLen c s ≠ 0) : (s.take (runeLen c s - 1)).length = runeLen c s - 1 := by
  unfold runeLen at h ⊢
  split
  · rename_i hc
    rw [List.length_take]
    omega
  · rename_i hc
    exact absurd (if_neg hc) h

/-- An encoding does not depend on what comes after it. -/
theorem runeLen_append (h : runeLen c s ≠ 0) (t : GoString) : runeLen c (s.take (runeLen c s - 1) ++ t) = runeLen c s := by
  have hlength := length_of_runeLen h
  by_cases hc : runeSize c ≤ s.length + 1 ∧ follows c (s.take (runeSize c - 1)) = true
  · have hlen : runeLen c s = runeSize c := if_pos hc
    rw [hlen] at hlength ⊢
    have htake : (s.take (runeSize c - 1) ++ t).take (runeSize c - 1) = s.take (runeSize c - 1) := by
      rw [List.take_append_of_le_length (le_of_eq hlength.symm), List.take_take, min_self]
    refine if_pos ⟨?_, ?_⟩
    · rw [List.length_append, hlength]
      omega
    · rw [htake]
      exact hc.2
  · exact absurd (if_neg hc) h

theorem zero_notMem_follows (h : follows c s = true) : (0 : UInt8) ∉ s := by
  cases s with
  | nil => exact List.not_mem_nil
  | cons d ds =>
    obtain ⟨hd, hds⟩ := Bool.and_eq_true_iff.1 h
    intro hmem
    rcases List.mem_cons.1 hmem with rfl | hmem
    · simp [second, continues] at hd
    · exact absurd (List.all_eq_true.1 hds _ hmem) (by decide)

theorem zero_notMem_rune (h : runeLen c s ≠ 0) : (0 : UInt8) ∉ s.take (runeLen c s - 1) := by
  by_cases hc : runeSize c ≤ s.length + 1 ∧ follows c (s.take (runeSize c - 1)) = true
  · have hlen : runeLen c s = runeSize c := if_pos hc
    rw [hlen]
    exact zero_notMem_follows hc.2
  · exact absurd (if_neg hc) h

theorem valid_cons (h : runeLen c s ≠ 0) : valid 0 (c :: s) = valid (runeLen c s - 1) s := by
  rw [valid]
  simp [h]

theorem clean_append (h : runeLen c s ≠ 0) (hc : c ≠ 0) (ht : Clean t) : Clean (c :: (s.take (runeLen c s - 1) ++ t)) := by
  have hlen := runeLen_append h t
  refine ⟨?_, ?_⟩
  · rw [List.mem_cons, List.mem_append, not_or, not_or]
    exact ⟨Ne.symm hc, zero_notMem_rune h, ht.1⟩
  · have hne : runeLen c (s.take (runeLen c s - 1) ++ t) ≠ 0 := by
      rw [hlen]
      exact h
    rw [valid_cons hne, hlen, valid_append (length_of_runeLen h)]
    exact ht.2

theorem clean_rebuild (s : GoString) : Clean (rebuild 0 s) := by
  induction hn : s.length using Nat.strong_induction_on generalizing s with
  | _ n ih =>
    cases s with
    | nil => exact ⟨List.not_mem_nil, rfl⟩
    | cons c s =>
      have hrest : ∀ k, Clean (rebuild 0 (s.drop k)) := fun k => ih _ (by rw [List.length_drop, ← hn, List.length_cons]; omega) _ rfl
      rw [rebuild]
      by_cases hc : c = 0
      · rw [if_pos hc]
        exact hrest 0
      · rw [if_neg hc]
        by_cases hrune : runeLen c s = 0
        · rw [if_pos hrune]
          exact @clean_append 0xEF (0xBF :: 0xBD :: []) _ (by decide) (by decide) (hrest 0)
        · rw [if_neg hrune, rebuild_eq]
          exact clean_append hrune hc (hrest _)

theorem clean_sanitize (s : GoString) : Clean (Sanitize s) := by
  unfold Sanitize
  split
  · rename_i h
    exact h
  · exact clean_rebuild s

end strings

/-! ## Values -/

/-- A value of the shape of JSON. A scalar is a number, a boolean or nil. -/
inductive Value where
  | str (s : GoString)
  | scalar (x : Option (Bool ⊕ Int))
  | map (entries : List (GoString × Value))
  | slice (elems : List Value)

abbrev Entries := List (GoString × Value)

def maxDepth : Nat := 32

def depthCapSentinel : GoString := GoString.lit "[REDACTED:depth-limit]"

/-- An entry is stored in a map, in the order of keys. -/
def put : Entries → GoString × Value → Entries
  | [], e => [e]
  | f :: out, e => if e.1 < f.1 then e :: f :: out else if e.1 = f.1 then e :: out else f :: put out e

def store (es : Entries) : Entries := es.foldl put []

/-- The keys and indices that lead to a place of the value. -/
abbrev Path := List (GoString ⊕ Nat)

/-- In which order the entries of the map at a place are visited. -/
structure Ranging where
  order : Path → Entries → Entries
  perm : ∀ p es, (order p es).Perm es

section deep

variable (r : Ranging)

mutual

def sanitizeDepth (p : Path) : Value → Value
  | .str s => .str (Sanitize s)
  | .scalar x => .scalar x
  | .map es => if maxDepth ≤ p.length then .str depthCapSentinel else .map (store (r.order p (sanitizeEntries p es)))
  | .slice xs => if maxDepth ≤ p.length then .str depthCapSentinel else .slice (sanitizeElems p 0 xs)

def sanitizeEntries (p : Path) : Entries → Entries
  | [] => []
  | (k, v) :: es => (Sanitize k, sanitizeDepth (.inl k :: p) v) :: sanitizeEntries p es

def sanitizeElems (p : Path) (i : Nat) : List Value → List Value
  | [] => []
  | v :: xs => sanitizeDepth (.inr i :: p) v :: sanitizeElems p (i + 1) xs

end

def SanitizeDeep (v : Value) : Value := sanitizeDepth r [] v

end deep

mutual

/-- The value with every string and key sanitised and every entry kept, down to the cap. -/
def intended (d : Nat) : Value → Value
  | .str s => .str (Sanitize s)
  | .scalar x => .scalar x
  | .map es => if maxDepth ≤ d then .str depthCapSentinel else .map ((intendedEntries (d + 1) es).insertionSort fun e f => e.1 ≤ f.1)
  | .slice xs => if maxDepth ≤ d then .str depthCapSentinel else .slice (intendedElems (d + 1) xs)

def intendedEntries (d : Nat) : Entries → Entries
  | [] => []
  | (k, v) :: es => (Sanitize k, intended d v) :: intendedEntries d es

def intendedElems (d : Nat) : List Value → List Value
  | [] => []
  | v :: xs => intended d v :: intendedElems d xs

end

mutual

/-- All strings and keys are clean, and no map or slice lies at the cap. The entries of a map have different keys, in order. -/
def Settled (d : Nat) : Value → Prop
  | .str s => Clean s
  | .scalar _ => True
  | .map es => d < maxDepth ∧ es.Pairwise (·.1 < ·.1) ∧ SettledEntries (d + 1) es
  | .slice xs => d < maxDepth ∧ SettledElems (d + 1) xs

def SettledEntries (d : Nat) : Entries → Prop
  | [] => True
  | (k, v) :: es => (Clean k ∧ Settled d v) ∧ SettledEntries d es

def SettledElems (d : Nat) : List Value → Prop
  | [] => True
  | v :: xs => Settled d v ∧ SettledElems d xs

end

mutual

/-- No two keys of a map above the cap are sanitised to the same key. -/
def Apart (d : Nat) : Value → Prop
  | .str _ => True
  | .scalar _ => True
  | .map es => d < maxDepth → (es.map fun e => Sanitize e.1).Nodup ∧ ApartEntries (d + 1) es
  | .slice xs => d < maxDepth → ApartElems (d + 1) xs

def ApartEntries (d : Nat) : Entries → Prop
  | [] => True
  | (_, v) :: es => Apart d v ∧ ApartEntries d es

def ApartElems (d : Nat) : List Value → Prop
  | [] => True
  | v :: xs => Apart d v ∧ ApartElems d xs

end

theorem Value.ind {P : Value → Prop} (hstr : ∀ s, P (.str s)) (hscalar : ∀ x, P (.scalar x))
    (hmap : ∀ es, (∀ e ∈ es, P e.2) → P (.map es)) (hslice : ∀ xs, (∀ x ∈ xs, P x) → P (.slice xs)) (v : Value) : P v :=
  @Value.rec P (fun es => ∀ e ∈ es, P e.2) (fun xs => ∀ x ∈ xs, P x) (fun e => P e.2) hstr hscalar hmap hslice
    (fun _ he => absurd he List.not_mem_nil) (fun _ _ he hes => List.forall_mem_cons.2 ⟨he, hes⟩)
    (fun _ hx => absurd hx List.not_mem_nil) (fun _ _ hx hxs => List.forall_mem_cons.2 ⟨hx, hxs⟩) (fun _ _ h => h) v

/-! ## Storing -/

section keys

variable {k l : GoString}

theorem lt_of_not_lt (h : ¬ k < l) (hne : k ≠ l) : l < k := by
  by_contra hge
  exact hne (List.le_antisymm hge h)

theorem ne_of_lt (h : k < l) : k ≠ l := by
  rintro rfl
  exact List.lt_irrefl k h

end keys

section store

variable {out es : Entries} {e f : GoString × Value}

theorem mem_put (h : f ∈ put out e) : f = e ∨ f ∈ out := by
  induction out with
  | nil => exact .inl (List.mem_singleton.1 h)
  | cons g out ih =>
    unfold put at h
    split at h
    · exact List.mem_cons.1 h
    · split at h
      · exact (List.mem_cons.1 h).imp_right (List.mem_cons_of_mem _)
      · rcases List.mem_cons.1 h with rfl | h
        · exact .inr List.mem_cons_self
        · exact (ih h).imp_right (List.mem_cons_of_mem _)

theorem pairwise_put (h : out.Pairwise (·.1 < ·.1)) : (put out e).Pairwise (·.1 < ·.1) := by
  induction out with
  | nil => exact List.pairwise_singleton _ _
  | cons g out ih =>
    obtain ⟨hhead, htail⟩ := List.pairwise_cons.1 h
    unfold put
    split
    · rename_i hlt
      refine List.pairwise_cons.2 ⟨fun f hf => ?_, h⟩
      rcases List.mem_cons.1 hf with rfl | hf
      · exact hlt
      · exact List.lt_trans hlt (hhead f hf)
    · rename_i hge
      split
      · rename_i heq
        exact List.pairwise_cons.2 ⟨fun f hf => heq ▸ hhead f hf, htail⟩
      · rename_i hne
        refine List.pairwise_cons.2 ⟨fun f hf => ?_, ih htail⟩
        rcases mem_put hf with rfl | hf
        · exact lt_of_not_lt hge hne
        · exact hhead f hf

theorem put_perm (h : e.1 ∉ out.map (·.1)) : (put out e).Perm (e :: out) := by
  induction out with
  | nil => exact List.Perm.refl _
  | cons g out ih =>
    rw [List.map_cons, List.mem_cons, not_or] at h
    unfold put
    rw [if_neg h.1]
    split
    · exact List.Perm.refl _
    · exact ((ih h.2).cons g).trans (List.Perm.swap _ _ _)

theorem store_mem_pairwise (es : Entries) (h : out.Pairwise (·.1 < ·.1)) :
    (es.foldl put out).Pairwise (·.1 < ·.1) ∧ ∀ f ∈ es.foldl put out, f ∈ out ∨ f ∈ es := by
  induction es generalizing out with
  | nil => exact ⟨h, fun f hf => .inl hf⟩
  | cons e es ih =>
    obtain ⟨hpairwise, hmem⟩ := ih (pairwise_put (e := e) h)
    refine ⟨hpairwise, fun f hf => ?_⟩
    rcases hmem f hf with hf | hf
    · rcases mem_put hf with rfl | hf
      · exact .inr List.mem_cons_self
      · exact .inl hf
    · exact .inr (List.mem_cons_of_mem _ hf)

theorem foldl_put_perm (h : ((out ++ es).map (·.1)).Nodup) : (es.foldl put out).Perm (out ++ es) := by
  induction es generalizing out with
  | nil => simp
  | cons e es ih =>
    have hmoved : (out ++ e :: es).Perm (e :: out ++ es) := List.perm_middle
    have hnew : e.1 ∉ out.map (·.1) := by
      rw [(hmoved.map _).nodup_iff, List.cons_append, List.map_cons, List.nodup_cons, List.map_append, List.mem_append, not_or] at h
      exact h.1.1
    have hput := put_perm hnew
    refine (ih ?_).trans ((hput.append_right es).trans hmoved.symm)
    rw [((hput.append_right es).map _).nodup_iff, ← (hmoved.map _).nodup_iff]
    exact h

theorem store_perm (h : (es.map (·.1)).Nodup) : (store es).Perm es := by
  simpa [store] using @foldl_put_perm [] es h

theorem eq_of_perm {es fs : Entries} (h : es.Perm fs) (hes : es.Pairwise (·.1 < ·.1)) (hfs : fs.Pairwise (·.1 < ·.1)) : es = fs :=
  h.eq_of_pairwise (fun _ _ _ _ hab hba => absurd hab (List.lt_asymm hba)) hes hfs

theorem keys_nodup (h : es.Pairwise (·.1 < ·.1)) : (es.map (·.1)).Nodup :=
  List.pairwise_map.2 (h.imp fun hab => ne_of_lt hab)

/-- Entries with different keys are stored in the order of keys, in whatever order they are visited. -/
theorem store_order (h : (es.map (·.1)).Nodup) {order : Entries} (hperm : order.Perm es) :
    store order = es.insertionSort fun e f => e.1 ≤ f.1 := by
  have hnodup : (order.map (·.1)).Nodup := (hperm.map _).nodup_iff.2 h
  have hsort := List.perm_insertionSort (fun e f : GoString × Value => e.1 ≤ f.1) es
  refine eq_of_perm ((store_perm hnodup).trans (hperm.trans hsort.symm)) (store_mem_pairwise order List.Pairwise.nil).1 ?_
  have htotal : Std.Total fun e f : GoString × Value => e.1 ≤ f.1 := ⟨fun e f => List.le_total e.1 f.1⟩
  have htrans : IsTrans (GoString × Value) fun e f => e.1 ≤ f.1 := ⟨fun _ _ _ => List.le_trans⟩
  have hle := List.pairwise_insertionSort (fun e f : GoString × Value => e.1 ≤ f.1) es
  have hne : (es.insertionSort fun e f => e.1 ≤ f.1).Pairwise (·.1 ≠ ·.1) := List.pairwise_map.1 ((hsort.map _).nodup_iff.2 h)
  exact (hle.and hne).imp fun hboth => lt_of_not_lt hboth.1 (Ne.symm hboth.2)

end store

/-! ## Every value -/

section values

variable {r : Ranging} {es : Entries} {xs : List Value} {d : Nat} {p : Path}

theorem sanitizeEntries_eq (es : Entries) :
    sanitizeEntries r p es = es.map fun e => (Sanitize e.1, sanitizeDepth r (.inl e.1 :: p) e.2) := by
  induction es with
  | nil => rfl
  | cons e es ih => exact congrArg (_ :: ·) ih

theorem intendedEntries_eq (es : Entries) : intendedEntries d es = es.map fun e => (Sanitize e.1, intended d e.2) := by
  induction es with
  | nil => rfl
  | cons e es ih => exact congrArg (_ :: ·) ih

theorem settledEntries_iff : SettledEntries d es ↔ ∀ e ∈ es, Clean e.1 ∧ Settled d e.2 := by
  induction es with
  | nil => exact ⟨fun _ _ he => absurd he List.not_mem_nil, fun _ => trivial⟩
  | cons e es ih =>
    rw [List.forall_mem_cons, ← ih]
    exact Iff.rfl

theorem apartEntries_iff : ApartEntries d es ↔ ∀ e ∈ es, Apart d e.2 := by
  induction es with
  | nil => exact ⟨fun _ _ he => absurd he List.not_mem_nil, fun _ => trivial⟩
  | cons e es ih =>
    rw [List.forall_mem_cons, ← ih]
    exact Iff.rfl

theorem clean_sentinel : Clean depthCapSentinel := ⟨by decide, by decide⟩

/-- What is sanitised is clean, and its maps have their entries in order. -/
theorem settled_sanitizeDepth (v : Value) : ∀ p, Settled p.length (sanitizeDepth r p v) := by
  induction v using Value.ind with
  | hstr s => exact fun _ => clean_sanitize s
  | hscalar x => exact fun _ => trivial
  | hmap es ih =>
    intro p
    unfold sanitizeDepth
    split
    · exact clean_sentinel
    · rename_i hdepth
      obtain ⟨hpairwise, hmem⟩ := store_mem_pairwise (r.order p (sanitizeEntries r p es)) List.Pairwise.nil
      refine ⟨not_le.1 hdepth, hpairwise, settledEntries_iff.2 fun e he => ?_⟩
      have he' := (r.perm p _).mem_iff.1 ((hmem e he).resolve_left List.not_mem_nil)
      rw [sanitizeEntries_eq] at he'
      obtain ⟨f, hf, rfl⟩ := List.mem_map.1 he'
      exact ⟨clean_sanitize f.1, ih f hf (.inl f.1 :: p)⟩
  | hslice xs ih =>
    intro p
    unfold sanitizeDepth
    split
    · exact clean_sentinel
    · rename_i hdepth
      refine ⟨not_le.1 hdepth, ?_⟩
      have helems : ∀ i (ys : List Value), (∀ y ∈ ys, y ∈ xs) → SettledElems (p.length + 1) (sanitizeElems r p i ys) := by
        intro i ys hys
        induction ys generalizing i with
        | nil => trivial
        | cons y ys ihs =>
          obtain ⟨hy, hys⟩ := List.forall_mem_cons.1 hys
          exact ⟨ih y hy (.inr i :: p), ihs (i + 1) hys⟩
      exact helems 0 xs fun _ hy => hy

/-- A clean value is left as it is. -/
theorem sanitizeDepth_settled (v : Value) : ∀ p, Settled p.length v → sanitizeDepth r p v = v := by
  induction v using Value.ind with
  | hstr s => exact fun _ h => congrArg Value.str (sanitize_of_clean h)
  | hscalar x => exact fun _ _ => rfl
  | hmap es ih =>
    intro p ⟨hdepth, hpairwise, hentries⟩
    rw [settledEntries_iff] at hentries
    have hsame : sanitizeEntries r p es = es := by
      rw [sanitizeEntries_eq]
      refine (List.map_congr_left fun e he => ?_).trans (List.map_id es)
      exact Prod.ext (sanitize_of_clean (hentries e he).1) (ih e he _ (hentries e he).2)
    rw [sanitizeDepth, if_neg (not_le.2 hdepth), hsame]
    have hkeys := keys_nodup hpairwise
    have horder := r.perm p es
    refine congrArg Value.map (eq_of_perm ((store_perm ((horder.map _).nodup_iff.2 hkeys)).trans horder) ?_ hpairwise)
    exact (store_mem_pairwise _ List.Pairwise.nil).1
  | hslice xs ih =>
    intro p ⟨hdepth, helems⟩
    have hsame : ∀ i (ys : List Value), (∀ y ∈ ys, y ∈ xs) → SettledElems (p.length + 1) ys → sanitizeElems r p i ys = ys := by
      intro i ys hys hsettled
      induction ys generalizing i with
      | nil => rfl
      | cons y ys ihs =>
        obtain ⟨hy, hys⟩ := List.forall_mem_cons.1 hys
        rw [sanitizeElems, ih y hy (.inr i :: p) hsettled.1, ihs (i + 1) hys hsettled.2]
    rw [sanitizeDepth, if_neg (not_le.2 hdepth), hsame 0 xs (fun _ hy => hy) helems]

/-- Where the keys of each map stay apart, no order of visits matters and no entry is lost. -/
theorem sanitizeDepth_apart (v : Value) : ∀ p, Apart p.length v → sanitizeDepth r p v = intended p.length v := by
  induction v using Value.ind with
  | hstr s => exact fun _ _ => rfl
  | hscalar x => exact fun _ _ => rfl
  | hmap es ih =>
    intro p h
    rw [sanitizeDepth, intended]
    split
    · rfl
    · rename_i hdepth
      obtain ⟨hkeys, hentries⟩ := h (not_le.1 hdepth)
      rw [apartEntries_iff] at hentries
      have hsame : sanitizeEntries r p es = intendedEntries (p.length + 1) es := by
        rw [sanitizeEntries_eq, intendedEntries_eq]
        exact List.map_congr_left fun e he => Prod.ext rfl (ih e he (.inl e.1 :: p) (hentries e he))
      have hnodup : ((intendedEntries (p.length + 1) es).map (·.1)).Nodup := by
        rw [intendedEntries_eq, List.map_map]
        exact hkeys
      rw [hsame, store_order hnodup (r.perm p _)]
  | hslice xs ih =>
    intro p h
    rw [sanitizeDepth, intended]
    split
    · rfl
    · rename_i hdepth
      have hsame : ∀ i (ys : List Value), (∀ y ∈ ys, y ∈ xs) → ApartElems (p.length + 1) ys →
          sanitizeElems r p i ys = intendedElems (p.length + 1) ys := by
        intro i ys hys hapart
        induction ys generalizing i with
        | nil => rfl
        | cons y ys ihs =>
          obtain ⟨hy, hys⟩ := List.forall_mem_cons.1 hys
          rw [sanitizeElems, intendedElems, ih y hy (.inr i :: p) hapart.1, ihs (i + 1) hys hapart.2]
          rfl
      rw [hsame 0 xs (fun _ hy => hy) (h (not_le.1 hdepth))]

/-- Two keys that become one leave a map whose keys are not in order. -/
theorem apart_of_settled (v : Value) : ∀ d, Settled d (intended d v) → Apart d v := by
  induction v using Value.ind with
  | hstr s => exact fun _ _ => trivial
  | hscalar x => exact fun _ _ => trivial
  | hmap es ih =>
    intro d h hdepth
    rw [intended, if_neg (not_le.2 hdepth)] at h
    obtain ⟨-, hpairwise, hentries⟩ := h
    have hperm := List.perm_insertionSort (fun e f : GoString × Value => e.1 ≤ f.1) (intendedEntries (d + 1) es)
    have hnodup := (hperm.map _).nodup_iff.1 (keys_nodup hpairwise)
    rw [intendedEntries_eq, List.map_map] at hnodup
    refine ⟨hnodup, apartEntries_iff.2 fun e he => ih e he (d + 1) ?_⟩
    rw [settledEntries_iff] at hentries
    have hmem : (Sanitize e.1, intended (d + 1) e.2) ∈ intendedEntries (d + 1) es := by
      rw [intendedEntries_eq]
      exact List.mem_map_of_mem he
    exact (hentries _ (hperm.mem_iff.2 hmem)).2
  | hslice xs ih =>
    intro d h hdepth
    rw [intended, if_neg (not_le.2 hdepth)] at h
    have helems : ∀ ys : List Value, (∀ y ∈ ys, y ∈ xs) → SettledElems (d + 1) (intendedElems (d + 1) ys) → ApartElems (d + 1) ys := by
      intro ys hys hsettled
      induction ys with
      | nil => trivial
      | cons y ys ihs =>
        obtain ⟨hy, hys⟩ := List.forall_mem_cons.1 hys
        exact ⟨ih y hy (d + 1) hsettled.1, ihs hys hsettled.2⟩
    exact helems xs (fun _ hy => hy) h.2

end values

/-- The entries as they are. -/
def inOrder : Ranging := ⟨fun _ es => es, fun _ es => List.Perm.refl es⟩

/-- A value is sanitised to the same clean value with the same entries, whatever the order of visits, exactly if no two keys of
a map above the cap become one. -/
theorem sanitizeDeep_iff (v : Value) : (∀ r, SanitizeDeep r v = intended 0 v ∧ Settled 0 (SanitizeDeep r v) ∧
    ∀ r', SanitizeDeep r' (SanitizeDeep r v) = SanitizeDeep r v) ↔ Apart 0 v := by
  constructor
  · intro h
    obtain ⟨hsame, hsettled, -⟩ := h inOrder
    exact apart_of_settled v 0 (hsame ▸ hsettled)
  · intro h r
    have hsettled := settled_sanitizeDepth (r := r) v []
    exact ⟨sanitizeDepth_apart v [] h, hsettled, fun r' => sanitizeDepth_settled _ [] hsettled⟩

/-- The keys `"k"` and `"k\x00"` become one. -/
theorem merged_keys : ¬ ∀ v r, SanitizeDeep r v = intended 0 v := by
  intro h
  have hlost := h (.map [([0x6B], .scalar (some (.inr 1))), ([0x6B, 0], .scalar (some (.inr 2)))]) inOrder
  exact absurd (congrArg List.length (Value.map.inj hlost)) (by decide)

end Ploykit.Redactx

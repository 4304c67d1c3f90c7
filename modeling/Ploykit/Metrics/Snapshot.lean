import Ploykit.Platform.GoString
import Mathlib.Data.List.AList

/-!
# Counters with attributes

`snapKey`, `IncrAttrs` and `Snapshot` of `platform/metrics/metrics.go`. The entries of a map of
attributes stand in the order in which they are walked.
-/

namespace Ploykit.Metrics

open GoString

abbrev Attrs := AList fun _ : GoString => GoString

def comma : UInt8 := ','.toUInt8
def equals : UInt8 := '='.toUInt8
def opening : UInt8 := '{'.toUInt8
def closing : UInt8 := '}'.toUInt8
def backslash : UInt8 := '\\'.toUInt8

/-- `snapValueEscaper` -/
def escape (v : GoString) : GoString := v.flatMap fun c => if c = backslash ∨ c = comma ∨ c = equals then [backslash, c] else [c]

def pair (attrs : Attrs) (k : GoString) : GoString := k ++ equals :: escape ((attrs.lookup k).getD [])

def sortedKeys (attrs : Attrs) : List GoString := attrs.keys.mergeSort fun a b => decide (a ≤ b)

def snapKey (name : GoString) (attrs : Attrs) : GoString :=
  if attrs.keys = [] then name else name ++ opening :: ([comma].intercalate ((sortedKeys attrs).map (pair attrs)) ++ [closing])

/-- The counters that a snapshot shows. -/
structure Registry where
  mirrors : GoString → Option Int64

def Registry.IncrAttrs (r : Registry) (name : GoString) (attrs : Attrs) : Registry :=
  { mirrors := Function.update r.mirrors (snapKey name attrs) (some ((r.mirrors (snapKey name attrs)).getD 0 + 1)) }

def Registry.Snapshot (r : Registry) : GoString → Option Int64 := r.mirrors

/-- It has none of the characters between the parts of a key. -/
def Clean (s : GoString) : Prop := ∀ c ∈ s, c ≠ comma ∧ c ≠ equals ∧ c ≠ opening ∧ c ≠ closing

/-- The two maps have the same entries. -/
def Same (a b : Attrs) : Prop := a.entries.Perm b.entries

instance (a b : Attrs) : Decidable (Same a b) := inferInstanceAs (Decidable (List.Perm _ _))

/-! ## Escaped values -/

section values

variable {v v' r r' k k' t t' : GoString}

/-- The text ends, or goes on with the next pair. -/
def Delimited (r : GoString) : Prop := ∀ c ∈ r.head?, c = comma

theorem escape_cons (c : UInt8) (v : GoString) :
    escape (c :: v) = (if c = backslash ∨ c = comma ∨ c = equals then [backslash, c] else [c]) ++ escape v := rfl

theorem head_escape_cons (c : UInt8) (v r : GoString) : ¬ Delimited (escape (c :: v) ++ r) := by
  rw [escape_cons]
  intro h
  split at h
  · exact absurd (h backslash rfl) (by decide)
  · rename_i hplain
    exact hplain (.inr (.inl (h c rfl)))

/-- A value is read back from what stands before the next pair. -/
theorem escape_inj (hr : Delimited r) (hr' : Delimited r') (h : escape v ++ r = escape v' ++ r') : v = v' ∧ r = r' := by
  induction v generalizing v' with
  | nil =>
    cases v' with
    | nil => exact ⟨rfl, h⟩
    | cons c v' =>
      rw [show escape [] ++ r = r from rfl] at h
      exact absurd (h ▸ hr) (head_escape_cons c v' r')
  | cons c v ih =>
    cases v' with
    | nil =>
      rw [show escape [] ++ r' = r' from rfl] at h
      exact absurd (h ▸ hr') (head_escape_cons c v r)
    | cons c' v' =>
      rw [escape_cons, escape_cons] at h
      have hhead : c = c' ∧ escape v ++ r = escape v' ++ r' := by
        split at h <;> split at h <;> simp only [List.cons_append, List.nil_append, List.cons.injEq] at h
        · exact ⟨h.2.1, h.2.2⟩
        · rename_i hplain
          exact absurd (.inl h.1.symm) hplain
        · rename_i hplain _
          exact absurd (.inl h.1) hplain
        · exact h
      obtain ⟨rfl, hrest⟩ := hhead
      obtain ⟨rfl, hr⟩ := ih hrest
      exact ⟨rfl, hr⟩

/-- What stands before the first such character. -/
theorem before_inj {c : UInt8} (hk : c ∉ k) (hk' : c ∉ k') (h : k ++ c :: t = k' ++ c :: t') : k = k' ∧ t = t' := by
  have hcut : ∀ k t : GoString, c ∉ k → (k ++ c :: t).takeWhile (· ≠ c) = k := by
    intro k t hk
    have hne : ∀ d ∈ k, decide (d ≠ c) = true := by
      refine fun d hd => decide_eq_true ?_
      rintro rfl
      exact hk hd
    rw [List.takeWhile_append_of_pos hne, List.takeWhile_cons_of_neg (by simp), List.append_nil]
  have hkeys : k = k' := (hcut k t hk).symm.trans ((congrArg _ h).trans (hcut k' t' hk'))
  subst hkeys
  exact ⟨rfl, (List.cons.inj (List.append_cancel_left h)).2⟩

end values

/-! ## Keys -/

section keys

variable {name name' : GoString} {a b : Attrs}

def render (p : GoString × GoString) : GoString := p.1 ++ equals :: escape p.2

/-- The pairs after the first. -/
def further (l : List (GoString × GoString)) : GoString := l.flatMap fun p => comma :: render p

theorem further_delimited (l : List (GoString × GoString)) : Delimited (further l) := by
  cases l with
  | nil => rintro _ ⟨⟩
  | cons p l =>
    rintro _ ⟨⟩
    rfl

theorem intercalate_render (p : GoString × GoString) (l : List (GoString × GoString)) :
    [comma].intercalate ((p :: l).map render) = render p ++ further l := by
  induction l generalizing p with
  | nil => simp [further]
  | cons q l ih =>
    rw [List.map_cons, List.map_cons, List.intercalate_cons_cons, ← List.map_cons, ih]
    simp [further]

theorem render_further_inj {p p' : GoString × GoString} {l l' : List (GoString × GoString)} (hp : equals ∉ p.1) (hp' : equals ∉ p'.1)
    (h : render p ++ further l = render p' ++ further l') : p = p' ∧ further l = further l' := by
  simp only [render, List.append_assoc, List.cons_append] at h
  obtain ⟨hkey, hrest⟩ := before_inj hp hp' h
  obtain ⟨hvalue, hfurther⟩ := escape_inj (further_delimited l) (further_delimited l') hrest
  exact ⟨Prod.ext hkey hvalue, hfurther⟩

theorem further_inj {l l' : List (GoString × GoString)} (hl : ∀ p ∈ l, equals ∉ p.1) (hl' : ∀ p ∈ l', equals ∉ p.1)
    (h : further l = further l') : l = l' := by
  induction l generalizing l' with
  | nil =>
    cases l' with
    | nil => rfl
    | cons p' l' => cases h
  | cons p l ih =>
    cases l' with
    | nil => cases h
    | cons p' l' =>
      have hpairs : render p ++ further l = render p' ++ further l' := (List.cons.inj h).2
      obtain ⟨rfl, hrest⟩ := render_further_inj (hl p List.mem_cons_self) (hl' p' List.mem_cons_self) hpairs
      rw [ih (fun q hq => hl q (List.mem_cons_of_mem _ hq)) (fun q hq => hl' q (List.mem_cons_of_mem _ hq)) hrest]

/-- The pairs of a map in the order of a key. -/
def pairs (attrs : Attrs) : List (GoString × GoString) := (sortedKeys attrs).map fun k => (k, (attrs.lookup k).getD [])

theorem snapKey_eq (name : GoString) (attrs : Attrs) :
    snapKey name attrs = if attrs.keys = [] then name else name ++ opening :: ([comma].intercalate ((pairs attrs).map render) ++ [closing]) := by
  have hpairs : (pairs attrs).map render = (sortedKeys attrs).map (pair attrs) := by
    rw [pairs, List.map_map]
    rfl
  rw [hpairs, snapKey]

theorem sortedKeys_perm (attrs : Attrs) : (sortedKeys attrs).Perm attrs.keys := List.mergeSort_perm _ _

theorem mem_sortedKeys {attrs : Attrs} {k : GoString} : k ∈ sortedKeys attrs ↔ k ∈ attrs.keys := (sortedKeys_perm attrs).mem_iff

theorem keys_perm (h : Same a b) : a.keys.Perm b.keys := List.Perm.map Sigma.fst h

theorem keys_eq (attrs : Attrs) : attrs.keys = attrs.entries.map fun e => e.1 := rfl

theorem pairs_perm (attrs : Attrs) : (pairs attrs).Perm (attrs.entries.map fun e => (e.1, e.2)) := by
  have hkeys : attrs.keys.map (fun k => (k, (attrs.lookup k).getD [])) = attrs.entries.map fun e => (e.1, e.2) := by
    rw [keys_eq, List.map_map]
    refine List.map_congr_left fun e he => ?_
    have hlookup : attrs.lookup e.1 = some e.2 := AList.mem_lookup_iff.2 he
    simp only [Function.comp_apply, hlookup, Option.getD_some]
  exact hkeys ▸ (sortedKeys_perm attrs).map _

theorem sortedKeys_congr (h : Same a b) : sortedKeys a = sortedKeys b := by
  have hperm : (sortedKeys a).Perm (sortedKeys b) := (sortedKeys_perm a).trans ((keys_perm h).trans (sortedKeys_perm b).symm)
  exact hperm.eq_of_pairwise (fun _ _ _ _ hab hba => List.le_antisymm hab hba) (pairwise_mergeSort id a.keys) (pairwise_mergeSort id b.keys)

/-- The order of the map does not matter. -/
theorem snapKey_congr (name : GoString) (h : Same a b) : snapKey name a = snapKey name b := by
  have hkeys : a.keys = [] ↔ b.keys = [] := by
    have hperm := keys_perm h
    exact ⟨fun ha => List.Perm.eq_nil (ha ▸ hperm.symm), fun hb => List.Perm.eq_nil (hb ▸ hperm)⟩
  have hpairs : pairs a = pairs b := by
    rw [pairs, pairs, sortedKeys_congr h]
    exact List.map_congr_left fun k _ => by rw [AList.perm_lookup h]
  simp only [snapKey_eq, hkeys, hpairs]

theorem equals_notMem_pairs (h : ∀ k ∈ a.keys, Clean k) : ∀ p ∈ pairs a, equals ∉ p.1 := by
  intro p hp hmem
  obtain ⟨k, hk, rfl⟩ := List.mem_map.1 hp
  exact (h k (mem_sortedKeys.1 hk) _ hmem).2.1 rfl

theorem pairs_inj (ha : ∀ k ∈ a.keys, Clean k) (hb : ∀ k ∈ b.keys, Clean k)
    (h : [comma].intercalate ((pairs a).map render) = [comma].intercalate ((pairs b).map render)) (hane : pairs a ≠ []) (hbne : pairs b ≠ []) :
    pairs a = pairs b := by
  have hpa := equals_notMem_pairs ha
  have hpb := equals_notMem_pairs hb
  cases hla : pairs a with
  | nil => exact absurd hla hane
  | cons p l =>
    cases hlb : pairs b with
    | nil => exact absurd hlb hbne
    | cons p' l' =>
      rw [hla, hlb, intercalate_render, intercalate_render] at h
      rw [hla] at hpa
      rw [hlb] at hpb
      obtain ⟨rfl, hrest⟩ := render_further_inj (hpa p List.mem_cons_self) (hpb p' List.mem_cons_self) h
      rw [further_inj (fun q hq => hpa q (List.mem_cons_of_mem _ hq)) (fun q hq => hpb q (List.mem_cons_of_mem _ hq)) hrest]

theorem same_of_pairs (h : pairs a = pairs b) : Same a b := by
  have hperm : (a.entries.map fun e => (e.1, e.2)).Perm (b.entries.map fun e => (e.1, e.2)) :=
    (pairs_perm a).symm.trans (h ▸ pairs_perm b)
  have hback := hperm.map fun p => (⟨p.1, p.2⟩ : (_ : GoString) × GoString)
  rw [List.map_map, List.map_map] at hback
  exact (List.map_id a.entries ▸ List.map_id b.entries ▸ hback : a.entries.Perm b.entries)

theorem pairs_ne_nil (h : a.keys ≠ []) : pairs a ≠ [] := by
  intro hnil
  have hsorted : sortedKeys a = [] := List.map_eq_nil_iff.1 hnil
  exact h (List.Perm.eq_nil (hsorted ▸ (sortedKeys_perm a).symm))

theorem same_of_empty (ha : a.keys = []) (hb : b.keys = []) : Same a b := by
  have hempty : ∀ c : Attrs, c.keys = [] → c.entries = [] := fun c hc => List.map_eq_nil_iff.1 hc
  rw [Same, hempty a ha, hempty b hb]

/-- The key tells the name and the attributes. -/
theorem snapKey_inj (hname : Clean name) (hname' : Clean name') (ha : ∀ k ∈ a.keys, Clean k) (hb : ∀ k ∈ b.keys, Clean k)
    (h : snapKey name a = snapKey name' b) : name = name' ∧ Same a b := by
  have hopen : opening ∉ name := fun hmem => (hname _ hmem).2.2.1 rfl
  have hopen' : opening ∉ name' := fun hmem => (hname' _ hmem).2.2.1 rfl
  rw [snapKey_eq, snapKey_eq] at h
  split at h <;> split at h
  · rename_i hka hkb
    exact ⟨h, same_of_empty hka hkb⟩
  · rw [h] at hopen
    exact absurd (List.mem_append_right _ List.mem_cons_self) hopen
  · rw [← h] at hopen'
    exact absurd (List.mem_append_right _ List.mem_cons_self) hopen'
  · rename_i hka hkb
    obtain ⟨rfl, hbody⟩ := before_inj hopen hopen' h
    exact ⟨rfl, same_of_pairs (pairs_inj ha hb (List.append_cancel_right hbody) (pairs_ne_nil hka) (pairs_ne_nil hkb))⟩

end keys

/-! ## Counts -/

section counts

def incrAll (r : Registry) (calls : List (GoString × Attrs)) : Registry := calls.foldl (fun r c => r.IncrAttrs c.1 c.2) r

theorem incrAll_mirrors (r : Registry) (calls : List (GoString × Attrs)) (key : GoString) :
    (incrAll r calls).mirrors key =
      if (calls.countP fun c => snapKey c.1 c.2 = key) = 0 then r.mirrors key
      else some ((r.mirrors key).getD 0 + Int64.ofNat (calls.countP fun c => snapKey c.1 c.2 = key)) := by
  induction calls generalizing r with
  | nil => rfl
  | cons c calls ih =>
    rw [incrAll, List.foldl_cons, ← incrAll, ih, List.countP_cons]
    by_cases hkey : snapKey c.1 c.2 = key
    · have hmirror : (r.IncrAttrs c.1 c.2).mirrors key = some ((r.mirrors key).getD 0 + 1) := by
        rw [Registry.IncrAttrs, hkey]
        exact Function.update_self _ _ _
      rw [hmirror, decide_eq_true hkey, if_pos rfl, if_neg (Nat.succ_ne_zero _)]
      split
      · rename_i hzero
        rw [hzero]
        rfl
      · rw [Option.getD_some, Int64.ofNat_add, Int64.add_assoc, Int64.add_comm 1]
        rfl
    · have hmirror : (r.IncrAttrs c.1 c.2).mirrors key = r.mirrors key := Function.update_of_ne (Ne.symm hkey) _ _
      rw [hmirror, decide_eq_false hkey, if_neg Bool.false_ne_true, Nat.add_zero]

/-- Calls with clean names and keys share a counter exactly if they name the same series, and the snapshot shows each series
with the number of its calls and nothing else. -/
theorem snapshot_series {calls : List (GoString × Attrs)} (hcalls : ∀ c ∈ calls, Clean c.1 ∧ ∀ k ∈ c.2.keys, Clean k) :
    (∀ c ∈ calls, ∀ c' ∈ calls, snapKey c.1 c.2 = snapKey c'.1 c'.2 ↔ c.1 = c'.1 ∧ Same c.2 c'.2) ∧
      (∀ c ∈ calls, (incrAll ⟨fun _ => none⟩ calls).Snapshot (snapKey c.1 c.2) =
        some (Int64.ofNat (calls.countP fun c' => c'.1 = c.1 ∧ Same c'.2 c.2))) ∧
      ∀ key, (∀ c ∈ calls, snapKey c.1 c.2 ≠ key) → (incrAll ⟨fun _ => none⟩ calls).Snapshot key = none := by
  have hshare : ∀ c ∈ calls, ∀ c' ∈ calls, snapKey c.1 c.2 = snapKey c'.1 c'.2 ↔ c.1 = c'.1 ∧ Same c.2 c'.2 := by
    intro c hc c' hc'
    refine ⟨fun h => snapKey_inj (hcalls c hc).1 (hcalls c' hc').1 (hcalls c hc).2 (hcalls c' hc').2 h, fun ⟨hname, hsame⟩ => ?_⟩
    rw [hname, snapKey_congr _ hsame]
  refine ⟨hshare, fun c hc => ?_, fun key hkey => ?_⟩
  · have hcount : (calls.countP fun c' => snapKey c'.1 c'.2 = snapKey c.1 c.2) = calls.countP fun c' => c'.1 = c.1 ∧ Same c'.2 c.2 :=
      List.countP_congr fun c' hc' => by rw [decide_eq_true_iff, decide_eq_true_iff, hshare c' hc' c hc]
    have hpos : (calls.countP fun c' => snapKey c'.1 c'.2 = snapKey c.1 c.2) ≠ 0 :=
      Nat.ne_of_gt (List.countP_pos_iff.2 ⟨c, hc, decide_eq_true rfl⟩)
    rw [Registry.Snapshot, incrAll_mirrors, if_neg hpos, hcount]
    exact congrArg some (Int64.zero_add _)
  · rw [Registry.Snapshot, incrAll_mirrors, if_pos (List.countP_eq_zero.2 fun c hc => by simpa using hkey c hc)]

theorem clean_of_all {s : GoString} (h : s.all (fun c => c ≠ comma && c ≠ equals && c ≠ opening && c ≠ closing) = true) : Clean s := by
  intro c hc
  simpa [and_assoc] using List.all_eq_true.1 h c hc

/-- A value with a separator does not run into the next pair, and the order of the map does not matter. -/
theorem snapshot_routes :
    let a : Attrs := (∅ : Attrs).insert (lit "k") (lit "x,z=1") |>.insert (lit "m") (lit "GET")
    let b : Attrs := (∅ : Attrs).insert (lit "m") (lit "GET") |>.insert (lit "k") (lit "x,z=1")
    (incrAll ⟨fun _ => none⟩ [(lit "n", a), (lit "n", b), (lit "n", ∅)]).Snapshot (snapKey (lit "n") a) = some 2 := by
  intro a b
  have hcalls : ∀ c ∈ [(lit "n", a), (lit "n", b), (lit "n", ∅)], Clean c.1 ∧ ∀ k ∈ c.2.keys, Clean k := by
    have hn : Clean (lit "n") := clean_of_all (by decide)
    have hk : Clean (lit "k") := clean_of_all (by decide)
    have hm : Clean (lit "m") := clean_of_all (by decide)
    simp only [List.forall_mem_cons, show a.keys = [lit "m", lit "k"] from rfl, show b.keys = [lit "k", lit "m"] from rfl, AList.keys_empty]
    simp [hn, hk, hm]
  exact (snapshot_series hcalls).2.1 _ List.mem_cons_self

end counts

end Ploykit.Metrics

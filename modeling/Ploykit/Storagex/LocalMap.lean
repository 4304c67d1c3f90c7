import Ploykit.Storagex.Local

/-!
# The local store as a map

`stored` is the map that the store stands for. `IsMap K` says that every run of calls on keys
of `K` is answered as by that map.
-/

namespace Ploykit.Storagex

open Lib GoString

/-! ## Escaped keys -/

def escapeKeyByte (c : UInt8) : GoString := if c = slash then [slash] else escapeByte c

theorem join_modifyHead (e : GoString) (l : List GoString) (hl : l ≠ []) :
    join (l.modifyHead (e ++ ·)) = e ++ join l := by
  obtain ⟨a, l, rfl⟩ := List.exists_cons_of_ne_nil hl
  cases l with
  | nil => simp [join]
  | cons b l => simp [join, List.intercalate_cons_cons]

theorem escapeKey_eq (s : GoString) : escapeKey s = s.flatMap escapeKeyByte := by
  induction s with
  | nil => rfl
  | cons c s ih =>
    have hne : (elements s).map pathEscape ≠ [] := by simp [elements_ne_nil]
    rw [List.flatMap_cons, ← ih, escapeKey, elements_cons, escapeKeyByte]
    split
    · obtain ⟨a, l, hl⟩ := List.exists_cons_of_ne_nil hne
      rw [List.map_cons, escapeKey, hl]
      rfl
    · have hmap : ((elements s).modifyHead (List.cons c)).map pathEscape =
          ((elements s).map pathEscape).modifyHead (escapeByte c ++ ·) := by
        cases elements s <;> simp [pathEscape]
      rw [hmap, join_modifyHead _ _ hne, escapeKey]

theorem escapeKeyByte_plain {c : UInt8} (h : Plain c) : escapeKeyByte c = [c] := by
  unfold escapeKeyByte escapeByte
  split
  · rename_i hc
    rw [hc]
  · rename_i hc
    rw [if_neg (by rw [h.resolve_left hc]; exact Bool.false_ne_true)]

theorem escapeKey_self {s : GoString} (h : ∀ c ∈ s, Plain c) : escapeKey s = s := by
  rw [escapeKey_eq]
  induction s with
  | nil => rfl
  | cons c s ih =>
    rw [List.forall_mem_cons] at h
    rw [List.flatMap_cons, escapeKeyByte_plain h.1, ih h.2]
    rfl

theorem escapeKeyByte_not_plain {c : UInt8} (h : ¬ Plain c) :
    escapeKeyByte c = [percent, upperHex (c / 16), upperHex (c % 16)] := by
  rw [Plain, not_or, Bool.not_eq_false] at h
  rw [escapeKeyByte, if_neg h.1, escapeByte, if_pos h.2]

theorem percent_mem_escapeKey {s : GoString} {c : UInt8} (hc : c ∈ s) (h : ¬ Plain c) : percent ∈ escapeKey s := by
  rw [escapeKey_eq, List.mem_flatMap]
  exact ⟨c, hc, by simp [escapeKeyByte_not_plain h]⟩

theorem length_escapeKeyByte (c : UInt8) : 1 ≤ (escapeKeyByte c).length := by
  unfold escapeKeyByte escapeByte
  split
  · simp
  · split <;> simp

theorem length_escapeKey (s : GoString) : s.length ≤ (escapeKey s).length := by
  rw [escapeKey_eq]
  induction s with
  | nil => simp
  | cons c s ih =>
    rw [List.flatMap_cons, List.length_append, List.length_cons, Nat.add_comm]
    exact Nat.add_le_add (length_escapeKeyByte c) ih

/-- A byte that is escaped makes the key longer. -/
theorem length_escapeKey_lt {s : GoString} {c : UInt8} (hc : c ∈ s) (h : ¬ Plain c) : s.length < (escapeKey s).length := by
  obtain ⟨l, r, rfl⟩ := List.append_of_mem hc
  have hl := length_escapeKey l
  have hr := length_escapeKey r
  rw [escapeKey_eq] at hl hr
  rw [escapeKey_eq, List.flatMap_append, List.flatMap_cons, escapeKeyByte_not_plain h]
  simp only [List.length_append, List.length_cons, List.length_nil]
  omega

/-- A plain key starts with the escaped prefix as it starts with the prefix. -/
theorem escapeKey_below {pre k : GoString} (hk : ∀ c ∈ k, Plain c) : escapeKey pre <+: k ↔ pre <+: k := by
  by_cases hpre : ∀ c ∈ pre, Plain c
  · rw [escapeKey_self hpre]
  · push Not at hpre
    obtain ⟨c, hc, hplain⟩ := hpre
    refine iff_of_false (fun h => ?_) fun h => hplain (hk c (h.subset hc))
    exact percent_notMem hk (h.subset (percent_mem_escapeKey hc hplain))

/-! ## Where an object lies -/

/-- The directories of a key. -/
def dirs (k : Key) : List GoString := (elements k).dropLast

theorem slash_notMem_metaSuffix : slash ∉ metaSuffix := by decide

/-- The metadata lies beside the object. -/
theorem paths (k : Key) : ∃ e, elements k = dirs k ++ [e] ∧ Key.metaPath k = dirs k ++ [e ++ metaSuffix] := by
  obtain ⟨l, e, hk, hmeta⟩ := elements_append (s := k) slash_notMem_metaSuffix
  have hl : dirs k = l := by rw [dirs, hk, List.dropLast_concat]
  exact ⟨e, by rw [hl, hk], by rw [hl]; exact hmeta⟩

theorem dropLast_metaPath (k : Key) : (Key.metaPath k).dropLast = dirs k := by
  obtain ⟨e, _, hmeta⟩ := paths k
  rw [hmeta, List.dropLast_concat]

theorem metaPath_ne_nil (k : Key) : Key.metaPath k ≠ [] := elements_ne_nil

theorem metaPath_inj {k k' : Key} (h : Key.metaPath k = Key.metaPath k') : k = k' :=
  List.append_cancel_right (elements_inj h)

theorem dirs_above (k : Key) : dirs k <+: elements k := List.dropLast_prefix _

theorem concat_not_prefix (d : List GoString) (e : GoString) : ¬ d ++ [e] <+: d := by
  intro h
  have hlen := h.length_le
  rw [List.length_append, List.length_singleton] at hlen
  exact absurd hlen (Nat.not_succ_le_self _)

theorem elements_not_prefix_dirs (k : Key) : ¬ elements k <+: dirs k := by
  obtain ⟨e, hk, _⟩ := paths k
  rw [hk]
  exact concat_not_prefix _ _

theorem metaPath_not_prefix_dirs (k : Key) : ¬ Key.metaPath k <+: dirs k := by
  obtain ⟨e, _, hk⟩ := paths k
  rw [hk]
  exact concat_not_prefix _ _

theorem ne_elements_of_above {k : Key} {q : List GoString} (h : q <+: dirs k) : q ≠ elements k := by
  rintro rfl
  exact elements_not_prefix_dirs k h

/-- What is above the metadata is the object's directories or above them. -/
theorem prefix_metaPath {k : Key} {q : List GoString} (h : q <+: Key.metaPath k) : q = Key.metaPath k ∨ q <+: dirs k := by
  obtain ⟨e, _, hmeta⟩ := paths k
  rw [hmeta] at h ⊢
  exact List.prefix_concat_iff.1 h

theorem prefix_elements {k : Key} {q : List GoString} (h : q <+: elements k) : q = elements k ∨ q <+: dirs k := by
  obtain ⟨e, hk, _⟩ := paths k
  rw [hk] at h ⊢
  exact List.prefix_concat_iff.1 h

theorem metaPath_ne_elements {k : Key} : Key.metaPath k ≠ elements k := by
  intro h
  have := congrArg List.length (elements_inj h)
  simp [metaSuffix, lit] at this

section refused

variable {B : Type} (C : Contents B) {k : Key} (t : Tree B)

theorem put_refused (h : ¬ validKey k) (ct : String) (body : B) : put C k ct body t = (.error .invalidKey, t) := by
  rw [put, Key.path, if_neg h]

theorem open_refused (h : ¬ validKey k) : openObject C k t = .error .invalidKey := by
  rw [openObject, Key.path, if_neg h]

theorem delete_refused (h : ¬ validKey k) : delete k t = (.error .invalidKey, t) := by
  rw [delete, Key.path, if_neg h]

end refused

section put

variable {B : Type} (C : Contents B) {k : Key} {t : Tree B}

/-- An object is stored where no file is in the way of its directories and no directory in the way of its files. -/
theorem put_ok (hkey : validKey k) (hclear : t.blocked (dirs k) = false) (hbody : t.get (elements k) ≠ some .dir)
    (hmeta : t.get (Key.metaPath k) ≠ some .dir) (ct : String) (body : B) :
    ∃ t', put C k ct body t = (.ok ((metaFor C k (contentTypeOr ct) body).object k), t') ∧
      ∀ q, t'.get q = if q = Key.metaPath k then some (.file (C.marshal (metaFor C k (contentTypeOr ct) body)))
        else if q = elements k then some (.file body)
        else (t.get q).or (if q <+: dirs k ∧ q ≠ [] then some .dir else none) := by
  obtain ⟨t₁, hmk, hget₁⟩ := FileTree.mkdirAll_ok hclear
  have hnotdir : ∀ q, t.get q ≠ some .dir → ¬ q <+: dirs k → t₁.get q ≠ some .dir := by
    intro q hq hpre
    rw [hget₁, if_neg fun h => hpre h.1, Option.or_none]
    exact hq
  have hparent : t₁.stat (dirs k) = .ok .dir := by
    refine FileTree.stat_dir fun hne => ?_
    rw [hget₁, if_pos ⟨List.prefix_refl _, hne⟩]
    cases hold : t.get (dirs k) with
    | none => rfl
    | some n =>
      cases n with
      | dir => rfl
      | file b => exact absurd hold (FileTree.blocked_eq_false.1 hclear _ (List.prefix_refl _) b)
  obtain ⟨t₂, hwrite, hget₂⟩ := FileTree.write_ok (b := body) hparent elements_ne_nil
    (hnotdir _ hbody (elements_not_prefix_dirs k))
  have hparent₂ : t₂.stat (Key.metaPath k).dropLast = .ok .dir := by
    rw [dropLast_metaPath]
    refine FileTree.stat_dir fun hne => ?_
    rw [hget₂, if_neg (ne_elements_of_above (List.prefix_refl _))]
    exact FileTree.get_of_stat hparent hne
  obtain ⟨t₃, hwriteMeta, hget₃⟩ := FileTree.write_ok (b := C.marshal (metaFor C k (contentTypeOr ct) body)) hparent₂
    (metaPath_ne_nil k) (by rw [hget₂, if_neg metaPath_ne_elements]; exact hnotdir _ hmeta (metaPath_not_prefix_dirs k))
  refine ⟨t₃, ?_, fun q => by rw [hget₃, hget₂, hget₁]⟩
  rw [put, Key.path, if_pos hkey]
  change t.mkdirAll (elements k).dropLast = _ at hmk
  simp only [hmk, hwrite, hwriteMeta]

end put

/-! ## What the walk makes of the files of an object -/

structure Entry (B : Type) where
  contentType : String
  body : B

def Entry.object {B : Type} (C : Contents B) (k : Key) (e : Entry B) : Object :=
  (metaFor C k e.contentType e.body).object k

section listed

variable {B : Type} {C : Contents B} {k : Key} {pre : GoString}

theorem unescape_plain (hk : ∀ c ∈ k, Plain c) : (pathUnescape (keepEncodedSlashes k)).getD k = k := by
  rw [keepEncodedSlashes_self (percent_notMem hk), pathUnescape_self (percent_notMem hk)]
  rfl

theorem escapeKey_eq_nil {s : GoString} : escapeKey s = [] ↔ s = [] := by
  refine ⟨fun h => ?_, fun h => by rw [h]; rfl⟩
  have hlen := length_escapeKey s
  rw [h] at hlen
  exact List.length_eq_zero_iff.1 (Nat.le_zero.1 hlen)

/-- The metadata of a plain key is listed under its key. -/
theorem listed_metaPath (hk : ∀ c ∈ k, Plain c) (e : Entry B) :
    listed C pre (join (Key.metaPath k)) (C.marshal (metaFor C k e.contentType e.body)) =
      if pre <+: k then some (e.object C k) else none := by
  obtain ⟨filename, hmeta⟩ := C.unmarshal_marshal (metaFor C k e.contentType e.body)
  rw [listed, Key.metaPath, join_elements, if_neg (not_not.2 (List.suffix_append _ _)), trimSuffix_append]
  simp only [escapeKey_below hk, unescape_plain hk, hmeta]
  split
  · rename_i h
    rw [if_neg h.2]
  · rename_i h
    rw [not_and_not_right] at h
    have hpre : pre <+: k := by
      rcases eq_or_ne pre [] with rfl | hne
      · exact List.nil_prefix
      · exact h fun hnil => hne (escapeKey_eq_nil.1 hnil)
    rw [if_pos hpre]
    rfl

theorem listed_elements (hk : ¬ metaSuffix <:+ k) (b : B) : listed C pre (join (elements k)) b = none := by
  rw [listed, join_elements, if_pos hk]

end listed

/-! ## The map -/

/-- What the store holds, by its keys. -/
abbrev Stored (B : Type) := Key → Option (Entry B)

inductive Op (B : Type) where
  | put (key : Key) (contentType : String) (body : B)
  | openObject (key : Key)
  | delete (key : Key)
  | list (pre : GoString)

inductive Answer (B : Type) where
  | put (r : Except Err Object)
  | opened (r : Except Err (FileNode B × Object))
  | deleted (r : Except Err Unit)
  | listed (l : List Object)

section ops

variable {B : Type} (C : Contents B)

def Op.exec : Op B → Tree B → Answer B × Tree B
  | .put key ct body, t => (Storagex.put C key ct body t).map .put id
  | .openObject key, t => (.opened (Storagex.openObject C key t), t)
  | .delete key, t => (Storagex.delete key t).map .deleted id
  | .list pre, t => (.listed (Storagex.list C pre t), t)

/-- The call keeps to the keys. -/
def Op.On (K : Set Key) : Op B → Prop
  | .put key _ _ => key ∈ K
  | .openObject key => key ∈ K
  | .delete key => key ∈ K
  | .list _ => True

def Op.apply (s : Stored B) : Op B → Stored B
  | .put key ct body => Function.update s key (some ⟨contentTypeOr ct, body⟩)
  | .openObject _ => s
  | .delete key => Function.update s key none
  | .list _ => s

/-- The answer is that of the map. An object without a content type is stored with the one that `Put` answers. -/
def Op.Right (s : Stored B) : Op B → Answer B → Prop
  | .put key ct body, .put r => r = .ok (Entry.object C key ⟨contentTypeOr ct, body⟩)
  | .openObject key, .opened r =>
    r = match s key with
      | none => .error (.os .noEnt)
      | some e => .ok (.file e.body, e.object C key)
  | .delete _, .deleted r => r = .ok ()
  | .list pre, .listed l =>
    (∀ o, o ∈ l ↔ ∃ e, s o.key = some e ∧ pre <+: o.key ∧ o = e.object C o.key) ∧
      (l.map Object.key).Nodup ∧ l.Pairwise fun a b => a.key ≤ b.key
  | _, _ => False

def runOps (ops : List (Op B)) : Tree B := ops.foldl (fun t op => (op.exec C t).2) .empty

def stored (ops : List (Op B)) : Stored B := ops.foldl Op.apply fun _ => none

/-- After any calls on the keys any call is answered as by the map. -/
def IsMap (K : Set Key) : Prop :=
  ∀ ops : List (Op B), (∀ op ∈ ops, op.On K) → ∀ op : Op B, op.On K → op.Right C (stored ops) (op.exec C (runOps C ops)).1

end ops

/-- No key is the directory of another. -/
def NoDirs (K : Set Key) : Prop := ∀ k ∈ K, ∀ k' ∈ K, elements k' <+: elements k → k' = k

/-- Keys need no escape, are not those of metadata, and lie nowhere below the metadata of another. -/
structure Apart (K : Set Key) : Prop where
  plain : ∀ k ∈ K, ∀ c ∈ k, Plain c
  noMeta : ∀ k ∈ K, ¬ metaSuffix <:+ k
  notBelow : ∀ k ∈ K, ∀ k' ∈ K, ¬ Key.metaPath k <+: elements k'

/-! ## Keys apart -/

section apart

variable {B : Type} {C : Contents B} {K : Set Key} {s : Stored B} {t : Tree B} {k : Key}

/-- The files are those of the objects, and every directory is above one of the keys. -/
structure Holds (C : Contents B) (K : Set Key) (s : Stored B) (t : Tree B) : Prop where
  keys : ∀ k, s k ≠ none → k ∈ K
  dir : ∀ p, t.get p = some .dir → ∃ k ∈ K, p <+: dirs k
  file : ∀ p b, t.get p = some (.file b) ↔ ∃ k e, s k = some e ∧
    (p = elements k ∧ b = e.body ∨ p = Key.metaPath k ∧ b = C.marshal (metaFor C k e.contentType e.body))

theorem Holds.empty : Holds C K (fun _ => none) .empty where
  keys _ h := absurd rfl h
  dir p h := by
    rw [FileTree.get_empty] at h
    cases h
  file p b := by simp

theorem Apart.elements_ne_metaPath (hK : Apart K) {k' : Key} (hk : k ∈ K) : elements k ≠ Key.metaPath k' := by
  intro h
  refine hK.noMeta k hk ?_
  rw [elements_inj h]
  exact List.suffix_append _ _

theorem NoDirs.not_prefix_dirs (hdirs : NoDirs K) {k' : Key} (hk : k ∈ K) (hk' : k' ∈ K) : ¬ elements k' <+: dirs k := by
  intro h
  rw [hdirs k hk k' hk' (h.trans (dirs_above k))] at h
  exact elements_not_prefix_dirs k h

/-- No file is in the way of the directories of a key. -/
theorem Holds.clear (hdirs : NoDirs K) (hK : Apart K) (h : Holds C K s t) (hk : k ∈ K) : t.blocked (dirs k) = false := by
  refine FileTree.blocked_eq_false.2 fun q hq b hget => ?_
  obtain ⟨k', e, hs, hfile⟩ := (h.file q b).1 hget
  have hk' : k' ∈ K := h.keys k' (by rw [hs]; exact Option.some_ne_none e)
  cases hfile with
  | inl hbody => exact hdirs.not_prefix_dirs hk hk' (hbody.1 ▸ hq)
  | inr hmeta => exact hK.notBelow k' hk' k hk (hmeta.1 ▸ hq.trans (dirs_above k))

theorem Holds.elements_not_dir (hdirs : NoDirs K) (h : Holds C K s t) (hk : k ∈ K) : t.get (elements k) ≠ some .dir := by
  intro hdir
  obtain ⟨k', hk', hpre⟩ := h.dir _ hdir
  exact hdirs.not_prefix_dirs hk' hk hpre

theorem Holds.metaPath_not_dir (hK : Apart K) (h : Holds C K s t) (hk : k ∈ K) : t.get (Key.metaPath k) ≠ some .dir := by
  intro hdir
  obtain ⟨k', hk', hpre⟩ := h.dir _ hdir
  exact hK.notBelow k hk k' hk' (hpre.trans (dirs_above k'))

/-- What lies where an object of the key is stored. -/
theorem Holds.get_elements (hdirs : NoDirs K) (hK : Apart K) (h : Holds C K s t) (hk : k ∈ K) :
    t.get (elements k) = (s k).map fun e => .file e.body := by
  cases hs : s k with
  | some e => exact (h.file _ _).2 ⟨k, e, hs, .inl ⟨rfl, rfl⟩⟩
  | none =>
    cases hget : t.get (elements k) with
    | none => rfl
    | some n =>
      cases n with
      | dir => exact absurd hget (h.elements_not_dir hdirs hk)
      | file b =>
        obtain ⟨k', e, hs', hfile⟩ := (h.file _ b).1 hget
        cases hfile with
        | inl hbody =>
          rw [elements_inj hbody.1, hs'] at hs
          cases hs
        | inr hmeta => exact absurd hmeta.1 (hK.elements_ne_metaPath hk)

theorem Holds.get_metaPath (hK : Apart K) (h : Holds C K s t) (hk : k ∈ K) :
    t.get (Key.metaPath k) = (s k).map fun e => .file (C.marshal (metaFor C k e.contentType e.body)) := by
  cases hs : s k with
  | some e => exact (h.file _ _).2 ⟨k, e, hs, .inr ⟨rfl, rfl⟩⟩
  | none =>
    cases hget : t.get (Key.metaPath k) with
    | none => rfl
    | some n =>
      cases n with
      | dir => exact absurd hget (h.metaPath_not_dir hK hk)
      | file b =>
        obtain ⟨k', e, hs', hfile⟩ := (h.file _ b).1 hget
        have hk' : k' ∈ K := h.keys k' (by rw [hs']; exact Option.some_ne_none e)
        cases hfile with
        | inl hbody => exact absurd hbody.1.symm (hK.elements_ne_metaPath hk')
        | inr hmeta =>
          rw [metaPath_inj hmeta.1, hs'] at hs
          cases hs

/-- Where there is no object no file is in the way of one. -/
theorem Holds.not_blocked (hdirs : NoDirs K) (hK : Apart K) (h : Holds C K s t) (hk : k ∈ K) (hs : s k = none) :
    t.blocked (elements k) = false ∧ t.blocked (Key.metaPath k) = false := by
  have hclear := FileTree.blocked_eq_false.1 (h.clear hdirs hK hk)
  constructor
  · refine FileTree.blocked_eq_false.2 fun q hq b => ?_
    cases prefix_elements hq with
    | inl heq => simp [heq, h.get_elements hdirs hK hk, hs]
    | inr hpre => exact hclear q hpre b
  · refine FileTree.blocked_eq_false.2 fun q hq b => ?_
    cases prefix_metaPath hq with
    | inl heq => simp [heq, h.get_metaPath hK hk, hs]
    | inr hpre => exact hclear q hpre b

/-! ## Each call -/

/-- The call answers as the map and leaves a tree for the map after it. -/
def Steps (C : Contents B) (K : Set Key) (s : Stored B) (t : Tree B) (op : Op B) : Prop :=
  op.Right C s (op.exec C t).1 ∧ Holds C K (op.apply s) (op.exec C t).2

theorem Holds.put (hvalid : ∀ k ∈ K, validKey k) (hdirs : NoDirs K) (hK : Apart K) (h : Holds C K s t) (hk : k ∈ K)
    (ct : String) (body : B) : Steps C K s t (.put k ct body) := by
  obtain ⟨t', hput, hget⟩ := put_ok C (hvalid k hk) (h.clear hdirs hK hk) (h.elements_not_dir hdirs hk)
    (h.metaPath_not_dir hK hk) ct body
  have hexec : (Op.put k ct body).exec C t = (.put (.ok (Entry.object C k ⟨contentTypeOr ct, body⟩)), t') := by
    rw [Op.exec, hput]
    rfl
  rw [Steps, hexec]
  refine ⟨rfl, ⟨fun k' hs => ?_, fun p hp => ?_, fun p b => ?_⟩⟩
  · rcases eq_or_ne k' k with rfl | hne
    · exact hk
    · exact h.keys k' (by rwa [Op.apply, Function.update_of_ne hne] at hs)
  · rw [hget] at hp
    split at hp
    · cases hp
    split at hp
    · cases hp
    cases hold : t.get p with
    | some n =>
      rw [hold] at hp
      exact h.dir p (hold.trans hp)
    | none =>
      rw [hold] at hp
      split at hp
      · rename_i hpre
        exact ⟨k, hk, hpre.1⟩
      · cases hp
  · -- the files of the key are new, those of any other key are where they were
    have hother : ∀ k', k' ≠ k → k' ∈ K → elements k' ≠ Key.metaPath k ∧ elements k' ≠ elements k ∧
        Key.metaPath k' ≠ Key.metaPath k ∧ Key.metaPath k' ≠ elements k := fun k' hne hk' =>
      ⟨hK.elements_ne_metaPath hk', fun heq => hne (elements_inj heq), fun heq => hne (metaPath_inj heq),
        fun heq => hK.elements_ne_metaPath hk heq.symm⟩
    have hfile : ∀ q, q ≠ Key.metaPath k → q ≠ elements k → (t'.get q = some (.file b) ↔ t.get q = some (.file b)) := by
      intro q hmeta hbody
      rw [hget, if_neg hmeta, if_neg hbody]
      cases t.get q with
      | some n => rfl
      | none =>
        rw [Option.none_or]
        split <;> simp
    simp only [Op.apply]
    constructor
    · intro hp
      rcases eq_or_ne p (Key.metaPath k) with rfl | hmeta
      · rw [hget, if_pos rfl] at hp
        cases hp
        exact ⟨k, _, Function.update_self .., .inr ⟨rfl, rfl⟩⟩
      rcases eq_or_ne p (elements k) with rfl | hbody
      · rw [hget, if_neg hmeta, if_pos rfl] at hp
        cases hp
        exact ⟨k, _, Function.update_self .., .inl ⟨rfl, rfl⟩⟩
      obtain ⟨k', e, hs, hp'⟩ := (h.file p b).1 ((hfile p hmeta hbody).1 hp)
      have hne : k' ≠ k := by
        rintro rfl
        exact hp'.elim (fun hp' => hbody hp'.1) fun hp' => hmeta hp'.1
      exact ⟨k', e, by rwa [Function.update_of_ne hne], hp'⟩
    · rintro ⟨k', e, hs, hp⟩
      rcases eq_or_ne k' k with rfl | hne
      · rw [Function.update_self] at hs
        cases hs
        rw [hget]
        cases hp with
        | inl hp => rw [hp.1, hp.2, if_neg (hK.elements_ne_metaPath hk), if_pos rfl]
        | inr hp => rw [hp.1, hp.2, if_pos rfl]
      · rw [Function.update_of_ne hne] at hs
        have hk' : k' ∈ K := h.keys k' (by rw [hs]; exact Option.some_ne_none e)
        obtain ⟨hbm, hbb, hmm, hmb⟩ := hother k' hne hk'
        have hold := (h.file p b).2 ⟨k', e, hs, hp⟩
        cases hp with
        | inl hp => exact (hfile p (hp.1 ▸ hbm) (hp.1 ▸ hbb)).2 hold
        | inr hp => exact (hfile p (hp.1 ▸ hmm) (hp.1 ▸ hmb)).2 hold

theorem Holds.openObject (hvalid : ∀ k ∈ K, validKey k) (hdirs : NoDirs K) (hK : Apart K) (h : Holds C K s t)
    (hk : k ∈ K) : Steps C K s t (.openObject k) := by
  refine ⟨?_, h⟩
  change Storagex.openObject C k t = _
  rw [Storagex.openObject, Key.path, if_pos (hvalid k hk)]
  have hget := h.get_elements hdirs hK hk
  cases hs : s k with
  | none =>
    rw [hs] at hget
    simp only [FileTree.stat_noEnt elements_ne_nil hget (h.not_blocked hdirs hK hk hs).1]
  | some e =>
    rw [hs] at hget
    obtain ⟨filename, hmeta⟩ := C.unmarshal_marshal (metaFor C k e.contentType e.body)
    have hread := FileTree.readFile_file (metaPath_ne_nil k) ((h.get_metaPath hK hk).trans (by rw [hs]; rfl))
    simp only [FileTree.stat_of_get elements_ne_nil hget, objectFor, hread, hmeta]
    rfl

theorem Holds.delete (hvalid : ∀ k ∈ K, validKey k) (hdirs : NoDirs K) (hK : Apart K) (h : Holds C K s t)
    (hk : k ∈ K) : Steps C K s t (.delete k) := by
  have hget := h.get_elements hdirs hK hk
  have hgetMeta := h.get_metaPath hK hk
  have hexec : ∃ t', Storagex.delete k t = (.ok (), t') ∧
      ∀ q, t'.get q = if q = elements k ∨ q = Key.metaPath k then none else t.get q := by
    rw [Storagex.delete, Key.path, if_pos (hvalid k hk)]
    cases hs : s k with
    | none =>
      rw [hs] at hget hgetMeta
      obtain ⟨hbody, hmeta⟩ := h.not_blocked hdirs hK hk hs
      refine ⟨t, ?_, fun q => ?_⟩
      · simp only [removeIfThere, FileTree.remove, FileTree.stat_noEnt elements_ne_nil hget hbody,
          FileTree.stat_noEnt (metaPath_ne_nil k) hgetMeta hmeta]
      · split
        · rename_i hq
          cases hq with
          | inl hq => rw [hq, hget]; rfl
          | inr hq => rw [hq, hgetMeta]; rfl
        · rfl
    | some e =>
      rw [hs] at hget hgetMeta
      obtain ⟨t₁, hremove, hget₁⟩ := FileTree.remove_file elements_ne_nil hget
      obtain ⟨t₂, hremoveMeta, hget₂⟩ := FileTree.remove_file (t := t₁) (metaPath_ne_nil k)
        (by rw [hget₁, if_neg metaPath_ne_elements]; exact hgetMeta)
      refine ⟨t₂, ?_, fun q => ?_⟩
      · simp only [removeIfThere, hremove, hremoveMeta]
      · rw [hget₂, hget₁]
        split <;> split <;> simp_all
  obtain ⟨t', hdelete, hget'⟩ := hexec
  have hexec : (Op.delete k).exec C t = (.deleted (.ok ()), t') := by
    rw [Op.exec, hdelete]
    rfl
  rw [Steps, hexec]
  refine ⟨rfl, ⟨fun k' hs => ?_, fun p hp => ?_, fun p b => ?_⟩⟩
  · refine h.keys k' fun hnone => hs ?_
    rw [Op.apply]
    rcases eq_or_ne k' k with rfl | hne
    · exact Function.update_self ..
    · rwa [Function.update_of_ne hne]
  · rw [hget'] at hp
    split at hp
    · cases hp
    · exact h.dir p hp
  · simp only [Op.apply, hget']
    constructor
    · intro hp
      split at hp
      · cases hp
      · rename_i hneither
        obtain ⟨k', e, hs, hp'⟩ := (h.file p b).1 hp
        have hne : k' ≠ k := by
          rintro rfl
          exact hneither (hp'.imp And.left And.left)
        exact ⟨k', e, by rwa [Function.update_of_ne hne], hp'⟩
    · rintro ⟨k', e, hs, hp⟩
      have hne : k' ≠ k := by
        rintro rfl
        rw [Function.update_self] at hs
        cases hs
      rw [Function.update_of_ne hne] at hs
      have hk' : k' ∈ K := h.keys k' (by rw [hs]; exact Option.some_ne_none e)
      have hneither : ¬ (p = elements k ∨ p = Key.metaPath k) := by
        rintro (rfl | rfl)
        · exact hp.elim (fun hp => hne (elements_inj hp.1).symm) fun hp => hK.elements_ne_metaPath hk hp.1
        · exact hp.elim (fun hp => hK.elements_ne_metaPath hk' hp.1.symm) fun hp => hne (metaPath_inj hp.1).symm
      rw [if_neg hneither]
      exact (h.file p b).2 ⟨k', e, hs, hp⟩

theorem Holds.put_eq (hvalid : ∀ k ∈ K, validKey k) (hdirs : NoDirs K) (hK : Apart K) (h : Holds C K s t) (hk : k ∈ K)
    (ct : String) (body : B) : ∃ t', Storagex.put C k ct body t = (.ok (Entry.object C k ⟨contentTypeOr ct, body⟩), t') ∧
      Holds C K (Function.update s k (some ⟨contentTypeOr ct, body⟩)) t' := by
  obtain ⟨hright, hholds⟩ := h.put hvalid hdirs hK hk ct body
  exact ⟨(Storagex.put C k ct body t).2, Prod.ext hright rfl, hholds⟩

theorem Holds.open_eq (hvalid : ∀ k ∈ K, validKey k) (hdirs : NoDirs K) (hK : Apart K) (h : Holds C K s t) (hk : k ∈ K) :
    Storagex.openObject C k t = match s k with
      | none => .error (.os .noEnt)
      | some e => .ok (.file e.body, e.object C k) :=
  (h.openObject hvalid hdirs hK hk).1

theorem Holds.delete_eq (hvalid : ∀ k ∈ K, validKey k) (hdirs : NoDirs K) (hK : Apart K) (h : Holds C K s t) (hk : k ∈ K) :
    ∃ t', Storagex.delete k t = (.ok (), t') ∧ Holds C K (Function.update s k none) t' := by
  obtain ⟨hright, hholds⟩ := h.delete hvalid hdirs hK hk
  exact ⟨(Storagex.delete k t).2, Prod.ext hright rfl, hholds⟩

/-- What is listed is the metadata of an object. -/
theorem Holds.listed (hK : Apart K) (h : Holds C K s t) {pre : GoString} {p : List GoString} {b : B} {o : Object}
    (hp : t.get p = some (.file b)) (ho : Storagex.listed C pre (join p) b = some o) :
    p = Key.metaPath o.key ∧ ∃ e, s o.key = some e ∧ pre <+: o.key ∧ o = e.object C o.key := by
  obtain ⟨k, e, hs, hfile⟩ := (h.file p b).1 hp
  have hk : k ∈ K := h.keys k (by rw [hs]; exact Option.some_ne_none e)
  cases hfile with
  | inl hbody =>
    rw [hbody.1, listed_elements (hK.noMeta k hk)] at ho
    cases ho
  | inr hmeta =>
    rw [hmeta.1, hmeta.2, listed_metaPath (hK.plain k hk)] at ho
    split at ho
    · rename_i hpre
      cases ho
      exact ⟨hmeta.1, e, hs, hpre, rfl⟩
    · cases ho

theorem sorted_list (C : Contents B) (pre : GoString) (t : Tree B) :
    (Storagex.list C pre t).Pairwise fun a b => a.key ≤ b.key := GoString.pairwise_mergeSort Object.key _

theorem mem_list {pre : GoString} {o : Object} :
    o ∈ Storagex.list C pre t ↔ ∃ p b, t.get p = some (.file b) ∧ Storagex.listed C pre (join p) b = some o := by
  rw [Storagex.list, List.mem_mergeSort, List.mem_filterMap]
  constructor
  · rintro ⟨⟨p, b⟩, hmem, ho⟩
    exact ⟨p, b, FileTree.mem_files.1 hmem, ho⟩
  · rintro ⟨p, b, hget, ho⟩
    exact ⟨(p, b), FileTree.mem_files.2 hget, ho⟩

theorem Holds.list (hK : Apart K) (h : Holds C K s t) (pre : GoString) : Steps C K s t (.list pre) := by
  refine ⟨⟨fun o => mem_list.trans ⟨?_, ?_⟩, ?_, sorted_list C pre t⟩, h⟩
  · rintro ⟨p, b, hget, ho⟩
    exact (h.listed hK hget ho).2
  · rintro ⟨e, hs, hpre, ho⟩
    have hk : o.key ∈ K := h.keys _ (by rw [hs]; exact Option.some_ne_none e)
    refine ⟨_, _, (h.file _ _).2 ⟨o.key, e, hs, .inr ⟨rfl, rfl⟩⟩, ?_⟩
    rw [listed_metaPath (hK.plain _ hk), if_pos hpre, ← ho]
  · -- two objects of one key would be of one file
    have hfiles : t.files.Pairwise fun f g => f.1 ≠ g.1 := List.pairwise_map.1 (FileTree.nodup_files t)
    refine ((List.mergeSort_perm _ _).map Object.key).nodup_iff.2 ?_
    refine List.pairwise_map.2 (List.pairwise_filterMap.2 (hfiles.imp_of_mem fun {f g} hf hg hne a ha b hb heq => hne ?_))
    rw [(h.listed hK (FileTree.mem_files.1 hf) ha).1, (h.listed hK (FileTree.mem_files.1 hg) hb).1, heq]

theorem Holds.step (hvalid : ∀ k ∈ K, validKey k) (hdirs : NoDirs K) (hK : Apart K) (h : Holds C K s t) {op : Op B}
    (hop : op.On K) : Steps C K s t op := by
  cases op with
  | put k ct body => exact h.put hvalid hdirs hK hop ct body
  | openObject k => exact h.openObject hvalid hdirs hK hop
  | delete k => exact h.delete hvalid hdirs hK hop
  | list pre => exact h.list hK pre

theorem Holds.run (hvalid : ∀ k ∈ K, validKey k) (hdirs : NoDirs K) (hK : Apart K) (ops : List (Op B))
    (hops : ∀ op ∈ ops, op.On K) : Holds C K (stored ops) (runOps C ops) := by
  induction ops using List.reverseRecOn with
  | nil => exact .empty
  | append_singleton ops op ih =>
    have hprev := ih fun o ho => hops o (List.mem_append_left _ ho)
    rw [stored, runOps, List.foldl_concat, List.foldl_concat]
    exact (hprev.step hvalid hdirs hK (hops op (by simp))).2

end apart

/-! ## Keys not apart -/

section notApart

variable {B : Type} {C : Contents B} {K : Set Key} {k : Key}

/-- What one call leaves of the empty tree. -/
theorem put_first (C : Contents B) (hkey : validKey k) (ct : String) (body : B) :
    ∃ t', put C k ct body .empty = (.ok ((metaFor C k (contentTypeOr ct) body).object k), t') ∧
      ∀ q, t'.get q = if q = Key.metaPath k then some (.file (C.marshal (metaFor C k (contentTypeOr ct) body)))
        else if q = elements k then some (.file body)
        else if q <+: dirs k ∧ q ≠ [] then some .dir else none := by
  have hempty : ∀ q, (FileTree.empty : Tree B).get q ≠ some .dir := by simp
  obtain ⟨t', hput, hget⟩ := put_ok C hkey (FileTree.blocked_eq_false.2 (by simp)) (hempty _) (hempty _) ct body
  refine ⟨t', hput, fun q => ?_⟩
  rw [hget, FileTree.get_empty, Option.none_or]

theorem IsMap.listed_once (h : IsMap C K) (hvalid : ∀ k ∈ K, validKey k) (hk : k ∈ K) (body : B) (pre : GoString) (o : Object) :
    (∃ p b, ((p = elements k ∧ b = body) ∨
        (p = Key.metaPath k ∧ b = C.marshal (metaFor C k (contentTypeOr "") body))) ∧
      listed C pre (join p) b = some o) ↔
      pre <+: k ∧ o = Entry.object C k ⟨contentTypeOr "", body⟩ := by
  obtain ⟨t', hput, hget⟩ := put_first C (hvalid k hk) "" body
  have hright := (h [.put k "" body] (by simpa [Op.On] using hk) (.list pre) trivial).1 o
  have htree : runOps C [.put k "" body] = t' := by
    rw [runOps, List.foldl_cons, List.foldl_nil, Op.exec, hput]
    rfl
  have hfile : ∀ p b, t'.get p = some (.file b) ↔ (p = elements k ∧ b = body) ∨
      (p = Key.metaPath k ∧ b = C.marshal (metaFor C k (contentTypeOr "") body)) := by
    intro p b
    rw [hget]
    split
    · rename_i hp
      simp only [hp, metaPath_ne_elements, false_and, false_or, true_and, Option.some.injEq, FileNode.file.injEq]
      exact eq_comm
    split
    · rename_i hp
      simp only [hp, metaPath_ne_elements.symm, false_and, or_false, true_and, Option.some.injEq, FileNode.file.injEq]
      exact eq_comm
    · rename_i hmeta hbody
      simp only [hmeta, hbody, false_and, or_self, iff_false]
      split <;> simp
  have hstored : stored [.put k "" body] = Function.update (fun _ => none) k (some ⟨contentTypeOr "", body⟩) := rfl
  rw [htree, mem_list, hstored] at hright
  simp only [hfile] at hright
  refine hright.trans ⟨?_, ?_⟩
  · rintro ⟨e, hs, hpre, ho⟩
    rcases eq_or_ne o.key k with hkey | hne
    · rw [hkey] at hs hpre ho
      rw [Function.update_self] at hs
      cases hs
      exact ⟨hpre, ho⟩
    · rw [Function.update_of_ne hne] at hs
      cases hs
  · rintro ⟨hpre, rfl⟩
    exact ⟨_, Function.update_self .., hpre, rfl⟩

theorem listed_prefix {pre rel : GoString} {b : B} {o : Object} (h : listed C pre rel b = some o) :
    metaSuffix <:+ rel ∧ (escapeKey pre = [] ∨ escapeKey pre <+: rel.trimSuffix metaSuffix) := by
  rw [listed] at h
  split at h
  · cases h
  rename_i hsuffix
  simp only at h
  split at h
  · cases h
  · rename_i hpre
    rw [not_and_not_right] at hpre
    exact ⟨not_not.1 hsuffix, or_iff_not_imp_left.2 hpre⟩

/-- A key that is escaped is not found by its own name. -/
theorem IsMap.plain (h : IsMap C K) (hvalid : ∀ k ∈ K, validKey k) (hk : k ∈ K) {c : UInt8} (hc : c ∈ k) : Plain c := by
  by_contra hplain
  obtain ⟨p, b, hfile, hlisted⟩ := (h.listed_once hvalid hk (C.marshal ⟨"", 0, "", "", []⟩) k _).2 ⟨List.prefix_refl k, rfl⟩
  obtain ⟨hsuffix, hpre⟩ := listed_prefix hlisted
  have hlong := length_escapeKey_lt hc hplain
  have hshort : ((join p).trimSuffix metaSuffix).length ≤ k.length := by
    cases hfile with
    | inl hbody =>
      rw [hbody.1, join_elements, trimSuffix]
      split
      · rw [List.length_take]
        exact (Nat.min_le_right _ _)
      · exact Nat.le_refl _
    | inr hmeta => rw [hmeta.1, Key.metaPath, join_elements, trimSuffix_append]
  cases hpre with
  | inl hnil =>
    rw [hnil] at hlong
    exact absurd hlong (Nat.not_lt_zero _)
  | inr hpre => exact absurd (hpre.length_le.trans hshort) (Nat.not_le.2 hlong)

/-- The bytes of a document of metadata, stored under a key of metadata, are listed as an object that nobody stored. -/
theorem IsMap.noMeta (h : IsMap C K) (hvalid : ∀ k ∈ K, validKey k) (hk : k ∈ K) : ¬ metaSuffix <:+ k := by
  intro hsuffix
  obtain ⟨filename, hmeta⟩ := C.unmarshal_marshal ⟨"text/plain", 0, "", "", []⟩
  have hlisted : ∃ key, listed C [] (join (elements k)) (C.marshal ⟨"text/plain", 0, "", "", []⟩) =
      some ⟨key, "text/plain", 0, ""⟩ := by
    rw [listed, join_elements, if_neg (not_not.2 hsuffix)]
    simp only [show escapeKey [] = [] from rfl, ne_eq, not_true_eq_false, false_and, if_false, hmeta]
    exact ⟨_, rfl⟩
  obtain ⟨key, hlisted⟩ := hlisted
  obtain ⟨_, ho⟩ := (h.listed_once hvalid hk (C.marshal ⟨"text/plain", 0, "", "", []⟩) [] _).1
    ⟨_, _, .inl ⟨rfl, rfl⟩, hlisted⟩
  have htype : "text/plain" = contentTypeOr "" := congrArg Object.contentType ho
  exact absurd htype (by decide)

/-- Below the metadata of a stored object nothing can be stored. -/
theorem IsMap.notBelow (h : IsMap C K) (hvalid : ∀ k ∈ K, validKey k) (hk : k ∈ K) {k' : Key} (hk' : k' ∈ K) :
    ¬ Key.metaPath k <+: elements k' := by
  intro hbelow
  cases prefix_elements hbelow with
  | inl heq =>
    refine h.noMeta hvalid hk' ?_
    rw [← elements_inj heq]
    exact List.suffix_append _ _
  | inr hpre =>
    let body := C.marshal ⟨"", 0, "", "", []⟩
    obtain ⟨t', hput, hget⟩ := put_first C (hvalid k hk) "" body
    have htree : runOps C [.put k "" body] = t' := by
      rw [runOps, List.foldl_cons, List.foldl_nil, Op.exec, hput]
      rfl
    have hblocked : ¬ t'.blocked (dirs k') = false := fun hclear =>
      FileTree.blocked_eq_false.1 hclear _ hpre _ ((hget _).trans (if_pos rfl))
    have hmk : t'.mkdirAll (elements k').dropLast = .error .notDir := FileTree.mkdirAll_blocked hblocked
    have hfail : put C k' "" body t' = (.error (.os .notDir), t') := by
      rw [put, Key.path, if_pos (hvalid k' hk')]
      simp only [hmk]
    have hright := h [.put k "" body] (by simpa [Op.On] using hk) (.put k' "" body) hk'
    rw [htree, Op.exec, hfail] at hright
    cases hright

end notApart

/-! ## Where the store is a map -/

/-- On keys none of which is the directory of another the store is a map exactly where they are apart. -/
theorem isMap_iff_apart {B : Type} (C : Contents B) (K : Set Key) (hvalid : ∀ k ∈ K, validKey k) (hdirs : NoDirs K) :
    IsMap C K ↔ Apart K := by
  constructor
  · exact fun h => ⟨fun _ hk _ hc => h.plain hvalid hk hc, fun _ hk => h.noMeta hvalid hk,
      fun _ hk _ hk' => h.notBelow hvalid hk hk'⟩
  · exact fun hK ops hops op hop => ((Holds.run hvalid hdirs hK ops hops).step hvalid hdirs hK hop).1

/-- Files that are bytes, or the document of some metadata. -/
def documents : Contents (GoString ⊕ Meta) where
  len
    | .inl bytes => bytes.length
    | .inr _ => 0
  sha256
    | .inl bytes => String.ofList (bytes.map fun c => Char.ofNat c.toNat)
    | .inr _ => ""
  detectContentType _ := "text/plain; charset=utf-8"
  dirSize := 4096
  marshal := .inr
  unmarshal
    | .inl _ => none
    | .inr m => some m
  unmarshal_marshal m := ⟨m.filename, rfl⟩

theorem isMap_two_posts : IsMap documents {lit "posts/1.png", lit "posts/2.png"} := by
  refine (isMap_iff_apart documents _ ?_ ?_).2 ⟨?_, ?_, ?_⟩
  · rintro k (rfl | rfl) <;> decide
  · rintro k (rfl | rfl) k' (rfl | rfl) <;> decide
  · rintro k (rfl | rfl) <;> decide +kernel
  · rintro k (rfl | rfl) <;> decide
  · rintro k (rfl | rfl) k' (rfl | rfl) <;> decide

/-- The object is stored over the metadata of another, which then cannot be opened. -/
theorem metadata_overwritten :
    (validKey (lit "a") ∧ validKey (lit "a.meta.json") ∧ NoDirs {lit "a", lit "a.meta.json"}) ∧
      ¬ IsMap documents {lit "a", lit "a.meta.json"} := by
  refine ⟨⟨by decide, by decide, ?_⟩, fun h => ?_⟩
  · rintro k (rfl | rfl) k' (rfl | rfl) <;> decide
  · let ops : List (Op (GoString ⊕ Meta)) :=
      [.put (lit "a") "image/png" (.inl (lit "x")), .put (lit "a.meta.json") "" (.inl (lit "y"))]
    have hops : ∀ op ∈ ops, op.On {lit "a", lit "a.meta.json"} :=
      List.forall_mem_cons.2 ⟨.inl rfl, List.forall_mem_cons.2 ⟨.inr rfl, fun _ hop => (nomatch hop)⟩⟩
    have hright := h ops hops (.openObject (lit "a")) (.inl rfl)
    have hopen : openObject documents (lit "a") (runOps documents ops) = .error .badMeta := by decide
    have hstored : (stored ops (lit "a")).isSome := by decide
    obtain ⟨e, hs⟩ := Option.isSome_iff_exists.1 hstored
    rw [Op.exec, hopen] at hright
    simp only [Op.Right, hs] at hright
    cases hright

end Ploykit.Storagex

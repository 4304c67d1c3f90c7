import Mathlib.Data.List.AList
import Mathlib.Data.List.Infix

/-!
# File trees

A tree below a root that is always there. Paths are the names from the root down. The calls
answer as those of a POSIX system that one process uses and that has no links and does not
fail: what a call refuses, it refuses because of what the tree is.
-/

namespace Ploykit.Lib

inductive Errno where
  | noEnt
  | notDir
  | isDir
  | notEmpty
  deriving DecidableEq, Repr

inductive FileNode (B : Type) where
  | dir
  | file (content : B)
  deriving DecidableEq, Repr

def FileNode.isFile {B : Type} : FileNode B → Bool
  | .dir => false
  | .file _ => true

def FileNode.isDir {B : Type} : FileNode B → Bool
  | .dir => true
  | .file _ => false

structure FileTree (N B : Type) [DecidableEq N] where
  nodes : AList fun _ : List N => FileNode B
  /-- What is above a node is a directory. -/
  closed : ∀ p q, p ++ q ∈ nodes → p ≠ [] → q ≠ [] → nodes.lookup p = some .dir

namespace FileTree

variable {N B : Type} [DecidableEq N]

def empty : FileTree N B := ⟨∅, fun _ _ h => absurd h (AList.notMem_empty _)⟩

section calls

variable (t : FileTree N B) (p : List N)

def get : Option (FileNode B) := t.nodes.lookup p

/-- There is a file at the path or above it. -/
def blocked : Bool := p.inits.any fun q => (t.get q).any FileNode.isFile

/-- The node at the path. -/
def stat : Except Errno (FileNode B) :=
  if p = [] then .ok .dir
  else match t.get p with
    | some n => .ok n
    | none => .error (if t.blocked p then .notDir else .noEnt)

def readFile : Except Errno B :=
  match t.stat p with
  | .ok (.file b) => .ok b
  | .ok .dir => .error .isDir
  | .error e => .error e

end calls

/-! ## Directories -/

/-- A directory where there is nothing. -/
def addDir (m : AList fun _ : List N => FileNode B) (q : List N) : AList fun _ : List N => FileNode B :=
  if q = [] ∨ q ∈ m then m else m.insert q .dir

theorem lookup_addDirs (m : AList fun _ : List N => FileNode B) (l : List (List N)) (q : List N) :
    (l.foldl addDir m).lookup q = (m.lookup q).or (if q ∈ l ∧ q ≠ [] then some .dir else none) := by
  induction l generalizing m with
  | nil => simp
  | cons a l ih =>
    rw [List.foldl_cons, ih]
    by_cases hq : q = a
    · subst hq
      by_cases hin : q = [] ∨ q ∈ m
      · rw [addDir, if_pos hin]
        rcases hin with rfl | hin
        · simp
        · obtain ⟨n, hn⟩ := Option.isSome_iff_exists.1 (AList.lookup_isSome.2 hin)
          simp [hn]
      · rw [addDir, if_neg hin, AList.lookup_insert]
        rw [not_or] at hin
        simp [AList.lookup_eq_none.2 hin.2, hin.1]
    · have hother : (addDir m a).lookup q = m.lookup q := by
        unfold addDir
        split
        · rfl
        · exact AList.lookup_insert_ne hq
      simp [hother, hq]

theorem blocked_eq_false {t : FileTree N B} {p : List N} :
    t.blocked p = false ↔ ∀ q, q <+: p → ∀ b, t.get q ≠ some (.file b) := by
  simp only [blocked, List.any_eq_false, List.mem_inits]
  refine forall₂_congr fun q _ => ?_
  cases t.get q with
  | none => simp
  | some n => cases n <;> simp [FileNode.isFile]

/-- `os.MkdirAll` -/
def mkdirAll (t : FileTree N B) (p : List N) : Except Errno (FileTree N B) :=
  if h : t.blocked p = false then .ok
    { nodes := p.inits.foldl addDir t.nodes
      closed := by
        intro a c hmem ha hc
        rw [lookup_addDirs]
        rw [← AList.lookup_isSome, lookup_addDirs] at hmem
        cases hold : t.nodes.lookup (a ++ c) with
        | some n =>
          rw [t.closed a c (AList.lookup_isSome.1 (by rw [hold]; rfl)) ha hc]
          rfl
        | none =>
          have hinit : a ++ c ∈ p.inits ∧ a ++ c ≠ [] := by
            by_contra hnot
            rw [hold, if_neg hnot] at hmem
            cases hmem
          have hpre : a <+: p := (List.prefix_append a c).trans ((List.mem_inits _ _).1 hinit.1)
          rw [if_pos ⟨(List.mem_inits _ _).2 hpre, ha⟩]
          cases hat : t.nodes.lookup a with
          | none => rfl
          | some n =>
            cases n with
            | dir => rfl
            | file b => exact absurd hat (blocked_eq_false.1 h a hpre b) }
  else .error .notDir

/-! ## Files -/

theorem get_of_stat {t : FileTree N B} {p : List N} {n : FileNode B} (h : t.stat p = .ok n) (hp : p ≠ []) :
    t.get p = some n := by
  rw [stat, if_neg hp] at h
  split at h
  · rename_i hget
    cases h
    exact hget
  · cases h

theorem not_isDir {o : Option (FileNode B)} (h : ¬ o.any FileNode.isDir) : o ≠ some .dir := by
  rintro rfl
  exact h rfl

/-- A file is put at the path with all its content, as by renaming a temporary file of the same directory. -/
def write (t : FileTree N B) (p : List N) (b : B) : Except Errno (FileTree N B) :=
  match hparent : t.stat p.dropLast with
  | .error e => .error e
  | .ok (.file _) => .error .notDir
  | .ok .dir =>
    if h : p = [] ∨ (t.get p).any FileNode.isDir then .error .isDir
    else .ok
      { nodes := t.nodes.insert p (.file b)
        closed := by
          intro a c hmem ha hc
          rw [not_or] at h
          rcases eq_or_ne a p with rfl | hap
          · have hold : a ++ c ∈ t.nodes := (AList.mem_insert _).1 hmem |>.resolve_left fun heq => hc (by simpa using heq)
            exact absurd (t.closed a c hold ha hc) (not_isDir h.2)
          · rw [AList.lookup_insert_ne hap]
            rcases (AList.mem_insert _).1 hmem with heq | hold
            · -- what is above the file is the parent or above it
              obtain ⟨d, n, rfl⟩ : ∃ d n, c = d ++ [n] := (List.eq_nil_or_concat' c).resolve_left hc
              rw [← heq, ← List.append_assoc, List.dropLast_concat] at hparent
              have hdir : t.nodes.lookup (a ++ d) = some .dir := get_of_stat hparent (by simp [ha])
              rcases eq_or_ne d [] with rfl | hd
              · rwa [List.append_nil] at hdir
              · exact t.closed a d (AList.lookup_isSome.1 (by rw [hdir]; rfl)) ha hd
            · exact t.closed a c hold ha hc }

/-- `os.Remove` -/
def remove (t : FileTree N B) (p : List N) : Except Errno (FileTree N B) :=
  match t.stat p with
  | .error e => .error e
  | .ok _ =>
    if h : p = [] ∨ ∃ q ∈ t.nodes.keys, p <+: q ∧ q ≠ p then .error .notEmpty
    else .ok
      { nodes := t.nodes.erase p
        closed := by
          intro a c hmem ha hc
          obtain ⟨hne, hold⟩ := (AList.mem_erase).1 hmem
          have hdir := t.closed a c hold ha hc
          rw [not_or] at h
          rcases eq_or_ne a p with rfl | hap
          · exact absurd ⟨a ++ c, hold, List.prefix_append a c, hne⟩ h.2
          · rwa [AList.lookup_erase_ne hap] }

/-- The files that `filepath.WalkDir` comes by, in some order. -/
def files (t : FileTree N B) : List (List N × B) :=
  t.nodes.entries.filterMap fun e =>
    match e.2 with
    | .dir => none
    | .file b => some (e.1, b)

/-! ## What the calls do -/

section spec

variable {t : FileTree N B} {p q : List N} {b : B}

@[simp] theorem get_empty : (empty : FileTree N B).get p = none := rfl

theorem mem_files : (p, b) ∈ t.files ↔ t.get p = some (.file b) := by
  have hentry : (p, b) ∈ t.files ↔ (⟨p, .file b⟩ : Sigma fun _ : List N => FileNode B) ∈ t.nodes.entries := by
    refine List.mem_filterMap.trans ⟨fun ⟨e, he, heq⟩ => ?_, fun h => ⟨_, h, rfl⟩⟩
    obtain ⟨q, n⟩ := e
    cases n with
    | dir => cases heq
    | file b' =>
      cases heq
      exact he
  exact hentry.trans AList.mem_lookup_iff.symm

/-- No path is come by twice. -/
theorem nodup_files (t : FileTree N B) : (t.files.map Prod.fst).Nodup := by
  have hkeys : t.nodes.entries.keys.Nodup := t.nodes.nodupKeys
  have hsub : ∀ l : List (Sigma fun _ : List N => FileNode B), ((l.filterMap fun e =>
      match e.2 with
      | .dir => none
      | .file b => some (e.1, b)).map Prod.fst).Sublist l.keys := by
    intro l
    induction l with
    | nil => exact .slnil
    | cons e l ih =>
      obtain ⟨q, n⟩ := e
      cases n with
      | dir => exact ih.cons _
      | file b => exact ih.cons_cons _
  exact hkeys.sublist (hsub _)

theorem stat_of_get (hp : p ≠ []) {n : FileNode B} (h : t.get p = some n) : t.stat p = .ok n := by
  rw [stat, if_neg hp, h]

/-- The root is a directory. -/
theorem stat_dir (h : p ≠ [] → t.get p = some .dir) : t.stat p = .ok .dir := by
  rcases eq_or_ne p [] with rfl | hp
  · rfl
  · exact stat_of_get hp (h hp)

theorem readFile_file (hp : p ≠ []) (h : t.get p = some (.file b)) : t.readFile p = .ok b := by
  rw [readFile, stat_of_get hp h]

theorem stat_noEnt (hp : p ≠ []) (h : t.get p = none) (hclear : t.blocked p = false) : t.stat p = .error .noEnt := by
  rw [stat, if_neg hp, h, hclear]
  rfl

/-- Where no file is in the way, there is a directory afterwards, and those above it. -/
theorem mkdirAll_ok (h : t.blocked p = false) : ∃ t', t.mkdirAll p = .ok t' ∧
    ∀ q, t'.get q = (t.get q).or (if q <+: p ∧ q ≠ [] then some .dir else none) := by
  refine ⟨_, dif_pos h, fun q => ?_⟩
  refine (lookup_addDirs t.nodes p.inits q).trans ?_
  simp only [List.mem_inits]
  rfl

theorem mkdirAll_blocked (h : ¬ t.blocked p = false) : t.mkdirAll p = .error .notDir := dif_neg h

/-- A file is written where the parent is a directory and there is none at the path. -/
theorem write_ok (hparent : t.stat p.dropLast = .ok .dir) (hp : p ≠ []) (hdir : t.get p ≠ some .dir) :
    ∃ t', t.write p b = .ok t' ∧ ∀ q, t'.get q = if q = p then some (.file b) else t.get q := by
  have hfree : ¬ (p = [] ∨ (t.get p).any FileNode.isDir) := by
    refine not_or.2 ⟨hp, fun h => hdir ?_⟩
    obtain ⟨n, hn, hisDir⟩ := (Option.any_eq_true _ _).1 h
    cases n with
    | dir => exact hn
    | file _ => cases hisDir
  unfold write
  split
  · rename_i h
    cases hparent.symm.trans h
  · rename_i h
    cases hparent.symm.trans h
  · refine ⟨_, dif_neg hfree, fun q => ?_⟩
    split
    · rename_i hq
      subst hq
      exact AList.lookup_insert _
    · rename_i hq
      exact AList.lookup_insert_ne hq

/-- A file can be removed. -/
theorem remove_file (hp : p ≠ []) (h : t.get p = some (.file b)) :
    ∃ t', t.remove p = .ok t' ∧ ∀ q, t'.get q = if q = p then none else t.get q := by
  have hleaf : ¬ (p = [] ∨ ∃ q ∈ t.nodes.keys, p <+: q ∧ q ≠ p) := by
    refine not_or.2 ⟨hp, fun ⟨q, hq, ⟨r, hr⟩, hne⟩ => ?_⟩
    subst hr
    have hdir := t.closed p r hq hp fun hr => hne (by rw [hr, List.append_nil])
    cases h.symm.trans hdir
  rw [remove, stat_of_get hp h]
  refine ⟨_, dif_neg hleaf, fun q => ?_⟩
  split
  · rename_i hq
    subst hq
    exact AList.lookup_erase ..
  · rename_i hq
    exact AList.lookup_erase_ne hq

end spec

end FileTree

end Ploykit.Lib

import Mathlib.Data.List.Sort
import Mathlib.Data.Prod.Lex
import Mathlib.Data.String.Basic
import Ploykit.Platform.Text

/-!
# Migrations directories

`scan` of `pgmigrate`: an up and a down script for each version, and the versions in numerical
order, where "0999" comes before "999". A number beyond 64 bits counts as the largest of them.
-/

namespace Ploykit.Pgmigrate

inductive Kind where
  | up
  | down
  deriving DecidableEq, Repr

/-- An entry of the directory, its data unless it cannot be read. -/
structure DirEntry where
  name : String
  isDir : Bool := false
  data : Option String := some ""
  deriving DecidableEq, Repr

structure MigrationFile where
  version : String
  kind : Kind
  name : String
  data : String
  deriving DecidableEq, Repr

inductive Err where
  | database
  | read (name : String)
  | invalidName (name : String)
  | duplicate (kind : Kind) (version : String)
  | hook (version : String)
  | exec (name : String)
  | bookkeeping (name : String)
  | missingDown (version : String)
  | limitZero
  deriving DecidableEq, Repr

/-! ## Names -/

/-- `[a-z0-9_]` -/
def isLabel (c : Char) : Bool := c.isLower || c.isDigit || c = '_'

/-- `^([0-9]{3,})_[a-z0-9_]+$` -/
def parseStem (stem : String) : Option String :=
  let version := stem.toList.takeWhile Char.isDigit
  match stem.toList.dropWhile Char.isDigit with
  | '_' :: label => if version.length ≥ 3 ∧ label ≠ [] ∧ label.all isLabel then some (String.ofList version) else none
  | _ => none

/-- The version and the kind that `fileRe` finds in a name. -/
def fileRe (name : String) : Option (String × Kind) :=
  match Strings.cutSuffix name ".up.sql" with
  | some stem => (parseStem stem).map (·, .up)
  | none => (Strings.cutSuffix name ".down.sql").bind fun stem => (parseStem stem).map (·, .down)

/-! ## Versions -/

def leadingNum (v : String) : Nat := min (Nat.ofDigitChars 10 (v.toList.takeWhile Char.isDigit) 0) (2 ^ 64 - 1)

def versionLess (a b : String) : Bool :=
  let na := leadingNum a
  let nb := leadingNum b
  if na ≠ nb then na < nb else a < b

def sortVersions (vs : List String) : List String := vs.insertionSort fun a b => ¬ versionLess b a

/-! ## Scanning -/

def byteOrderMark : String := String.singleton '\uFEFF'

def trimPrefix (s pre : String) : String := (Strings.cutPrefix s pre).getD s

structure Scan where
  ups : List MigrationFile
  downs : List MigrationFile
  versions : List String

def scanEntries (ups downs : List MigrationFile) : List DirEntry → Except Err (List MigrationFile × List MigrationFile)
  | [] => .ok (ups, downs)
  | e :: entries =>
    if e.isDir then scanEntries ups downs entries
    else match fileRe e.name with
      | none => .error (.invalidName e.name)
      | some (version, kind) => match e.data with
        | none => .error (.read e.name)
        | some raw =>
          let mf : MigrationFile := { version, kind, name := e.name, data := trimPrefix raw byteOrderMark }
          match kind with
          | .up =>
            if ups.any (·.version = version) then .error (.duplicate .up version) else scanEntries (ups ++ [mf]) downs entries
          | .down =>
            if downs.any (·.version = version) then .error (.duplicate .down version) else scanEntries ups (downs ++ [mf]) entries

/-- `scan` of a directory that can be listed. -/
def scan (entries : List DirEntry) : Except Err Scan := do
  let (ups, downs) ← scanEntries [] [] entries
  return { ups, downs, versions := sortVersions (ups.map (·.version)) }

/-! ## The order of versions -/

/-- Versions in their order. -/
def rank (v : String) : ℕ ×ₗ String := toLex (leadingNum v, v)

theorem rank_inj {a b : String} : rank a = rank b ↔ a = b :=
  ⟨fun h => congrArg (fun p => (ofLex p).2) h, congrArg rank⟩

theorem versionLess_iff {a b : String} : versionLess a b ↔ rank a < rank b := by
  rw [rank, rank, Prod.Lex.toLex_lt_toLex, versionLess]
  by_cases h : leadingNum a = leadingNum b
  · simp [h]
  · simp [h]

theorem sortVersions_perm (vs : List String) : (sortVersions vs).Perm vs := List.perm_insertionSort _ vs

theorem sortVersions_sorted {vs : List String} (h : vs.Nodup) : (sortVersions vs).Pairwise fun a b => rank a < rank b := by
  have hle : ∀ a b : String, (¬ versionLess b a) ↔ rank a ≤ rank b := fun a b => by rw [versionLess_iff, not_lt]
  have : Std.Total fun a b : String => ¬ versionLess b a := ⟨fun a b => by
    rw [hle, hle]
    exact le_total _ _⟩
  have : IsTrans String fun a b => ¬ versionLess b a := ⟨fun a b c hab hbc => (hle a c).2 (((hle a b).1 hab).trans ((hle b c).1 hbc))⟩
  have hsorted : (sortVersions vs).Pairwise fun a b => ¬ versionLess b a := List.pairwise_insertionSort _ vs
  have hnodup : (sortVersions vs).Nodup := (sortVersions_perm vs).nodup_iff.2 h
  exact (hsorted.and hnodup).imp fun hab => lt_of_le_of_ne ((hle _ _).1 hab.1) fun heq => hab.2 (rank_inj.1 heq)

/-! ## What is accepted -/

/-- A version is digits. -/
def Numbered (v : String) : Prop := v ≠ "" ∧ ∀ c ∈ v.toList, c.isDigit

theorem numbered_of_fileRe {name version : String} {kind : Kind} (h : fileRe name = some (version, kind)) : Numbered version := by
  have hstem : ∀ stem, parseStem stem = some version → Numbered version := by
    intro stem hstem
    unfold parseStem at hstem
    split at hstem
    · rename_i label _
      by_cases hlabel : (stem.toList.takeWhile Char.isDigit).length ≥ 3 ∧ label ≠ [] ∧ label.all isLabel
      · rw [if_pos hlabel] at hstem
        obtain rfl := Option.some.inj hstem
        refine ⟨fun hempty => ?_, fun c hc => ?_⟩
        · have hlength := congrArg (fun s => s.toList.length) hempty
          simp only [String.toList_ofList] at hlength
          have hthree := hlabel.1
          rw [hlength] at hthree
          exact absurd hthree (by decide)
        · rw [String.toList_ofList] at hc
          exact List.mem_takeWhile_imp hc
      · rw [if_neg hlabel] at hstem
        cases hstem
    · cases hstem
  unfold fileRe at h
  split at h
  · obtain ⟨v, hv, heq⟩ := Option.map_eq_some_iff.1 h
    obtain ⟨rfl, rfl⟩ := Prod.mk.inj heq
    exact hstem _ hv
  · obtain ⟨stem, _, hmap⟩ := Option.bind_eq_some_iff.1 h
    obtain ⟨v, hv, heq⟩ := Option.map_eq_some_iff.1 hmap
    obtain ⟨rfl, rfl⟩ := Prod.mk.inj heq
    exact hstem _ hv

/-- Files that a directory can have: numbered, and one for each version. -/
structure Files (mfs : List MigrationFile) : Prop where
  numbered : ∀ mf ∈ mfs, Numbered mf.version
  nodup : (mfs.map (·.version)).Nodup

theorem Files.add {mfs : List MigrationFile} {mf : MigrationFile} (h : Files mfs) (hmf : Numbered mf.version)
    (hnew : ¬ mfs.any (·.version = mf.version)) : Files (mfs ++ [mf]) where
  numbered mf' hmem := (List.mem_append.1 hmem).elim (h.numbered mf') fun hlast => List.mem_singleton.1 hlast ▸ hmf
  nodup := by
    rw [List.map_append]
    refine List.Nodup.append h.nodup (List.nodup_singleton _) fun v hv hlast => ?_
    obtain ⟨mf', hmem, rfl⟩ := List.mem_map.1 hv
    exact hnew (List.any_eq_true.2 ⟨mf', hmem, decide_eq_true (List.mem_singleton.1 hlast)⟩)

theorem scanEntries_files {entries : List DirEntry} {ups downs ups' downs' : List MigrationFile} (hups : Files ups) (hdowns : Files downs)
    (h : scanEntries ups downs entries = .ok (ups', downs')) : Files ups' ∧ Files downs' := by
  induction entries generalizing ups downs with
  | nil =>
    obtain ⟨rfl, rfl⟩ := Prod.mk.inj (Except.ok.inj h)
    exact ⟨hups, hdowns⟩
  | cons e entries ih =>
    rw [scanEntries] at h
    split at h
    · exact ih hups hdowns h
    · split at h
      · cases h
      · rename_i version kind hname
        split at h
        · cases h
        · split at h
          · split at h
            · cases h
            · exact ih (hups.add (numbered_of_fileRe hname) ‹_›) hdowns h
          · split at h
            · cases h
            · exact ih hups (hdowns.add (numbered_of_fileRe hname) ‹_›) h

/-- What `scan` promises of a directory that it accepts. -/
structure Scan.Ok (s : Scan) : Prop where
  ups : Files s.ups
  downs : Files s.downs
  sorted : s.versions.Pairwise fun a b => rank a < rank b
  mem_versions : ∀ v, v ∈ s.versions ↔ ∃ mf ∈ s.ups, mf.version = v

theorem scan_ok {entries : List DirEntry} {s : Scan} (h : scan entries = .ok s) : s.Ok := by
  unfold scan at h
  cases hscan : scanEntries [] [] entries with
  | error e =>
    rw [hscan] at h
    cases h
  | ok files =>
    rw [hscan] at h
    obtain rfl := Except.ok.inj h
    have hnone : Files [] := ⟨fun _ hmem => (List.not_mem_nil hmem).elim, List.nodup_nil⟩
    obtain ⟨hups, hdowns⟩ := scanEntries_files hnone hnone hscan
    refine ⟨hups, hdowns, sortVersions_sorted hups.nodup, fun v => ?_⟩
    rw [(sortVersions_perm _).mem_iff, List.mem_map]

end Ploykit.Pgmigrate

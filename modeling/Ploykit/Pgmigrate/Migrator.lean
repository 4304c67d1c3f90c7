import Mathlib.Data.List.Dedup
import Ploykit.Lib.Procedure
import Ploykit.Pgmigrate.Scan

/-!
# The migrator

`Up` and `Down` of `pgmigrate`. Of the database the model keeps the rows of `schema_migrations`, in
the order in which they were inserted, and the scripts that took effect; a script does not touch the
table itself. A statement that fails may have been committed all the same, when its answer is lost.
-/

namespace Ploykit.Pgmigrate

open Lib

/-! ## Statements -/

/-- A script with its bookkeeping in one transaction, or the two of them one after the other. -/
inductive Sql where
  | transaction (mf : MigrationFile) (isUp : Bool)
  | body (mf : MigrationFile) (isUp : Bool)
  | bookkeeping (mf : MigrationFile) (isUp : Bool)

inductive Op : Type → Type where
  | acquire : Op (Except Err Unit)
  | ensureVersionTable : Op (Except Err Unit)
  | lock : Op (Except Err Unit)
  | unlock : Op Unit
  | applied : Op (Except Err (List String))
  | hook (version : String) (i : Nat) : Op (Except Err Unit)
  | exec (sql : Sql) : Op (Except Err Nat)
  | rollback : Op Unit

structure Db where
  rows : List String
  effects : List (String × Bool) := []
  deriving DecidableEq, Repr

/-- `split_part(v, '_', 1)` -/
def splitPart (v : String) : String := String.ofList (v.toList.takeWhile (· ≠ '_'))

def normVersion (v : String) : String := if v.toList.takeWhile (· ≠ '_') ≠ [] then splitPart v else v

namespace Db

variable (db : Db) (mf : MigrationFile) (isUp : Bool)

/-- The bookkeeping, unless the version is there already. -/
def bookkeep : Option Db :=
  if isUp then if mf.version ∈ db.rows then none else some { db with rows := db.rows ++ [mf.version] }
  else some { db with rows := db.rows.filter fun v => splitPart v ≠ mf.version }

def affect : Db := { db with effects := db.effects ++ [(mf.version, isUp)] }

end Db

/-- How the statement may be answered, and what it leaves. -/
def Sql.Runs : Sql → Db → Except Err Nat → Db → Prop
  | .transaction mf isUp, db, r, db' => (r.isOk = false ∧ db' = db) ∨ (db.affect mf isUp).bookkeep mf isUp = some db'
  | .body mf isUp, db, r, db' => (r.isOk = false ∧ db' = db) ∨ db' = db.affect mf isUp
  | .bookkeeping mf isUp, db, r, db' => (r.isOk = false ∧ db' = db) ∨
    db.bookkeep mf isUp = some db' ∧ ∀ n, r = .ok n → n = if isUp then 1 else db.rows.length - db'.rows.length

def Step : {β : Type} → Op β → Db → β → Db → Prop
  | _, .applied, db, r, db' => db' = db ∧ ∀ rows, r = .ok rows → rows = db.rows
  | _, .exec sql, db, r, db' => sql.Runs db r db'
  | _, _, db, _, db' => db' = db

/-! ## Migrations -/

def noTxMarker : String := "-- migrate:no-transaction"

def hasNoTxMarker (data : String) : Bool :=
  let s := Strings.trimSpace (trimPrefix (Strings.trimSpace data) byteOrderMark)
  (s.toList.take noTxMarker.length).map Char.toLower = noTxMarker.toList

open Proc in
def execMigrationOn (mf : MigrationFile) (isUp : Bool) : Proc Op Err Unit :=
  if hasNoTxMarker mf.data then do
    let _ ← attempt (.exec (.body mf isUp))
    let n ← attempt (.exec (.bookkeeping mf isUp))
    if ¬ isUp ∧ n = 0 then throw (.bookkeeping mf.name)
  else do
    match ← ask (.exec (.transaction mf isUp)) with
    | .ok _ => pure ()
    | .error _ =>
      ask .rollback
      throw (.exec mf.name)

/-- `defer` -/
def deferred (m : Proc Op Err (List String)) (o : Op Unit) : Proc Op Err (List String) :=
  ExceptT.mk (m.run.bind fun r => (Script.op o).bind fun _ => .ret r)

open Proc in
def withRunLock (fn : Proc Op Err (List String)) : Proc Op Err (List String) := do
  attempt .acquire
  attempt .ensureVersionTable
  attempt .lock
  deferred fn .unlock

/-- What `appliedOn` reads, as the keys of its map. -/
def appliedOn : Proc Op Err (List String) := do
  let rows ← Proc.attempt .applied
  return rows.map normVersion

def MigrationFile.zero : MigrationFile := { version := "", kind := .up, name := "", data := "" }

def Scan.up? (s : Scan) (v : String) : MigrationFile := (s.ups.find? (·.version = v)).getD MigrationFile.zero

def Scan.down? (s : Scan) (v : String) : Option MigrationFile := s.downs.find? (·.version = v)

section Run

variable (entries : List DirEntry) (hooks : String → Nat) (s : Scan)

def runHooks (v : String) : Nat → Proc Op Err Unit
  | 0 => pure ()
  | i + 1 => do
    runHooks v i
    Proc.attempt (.hook v i)

def upLoop (applied : List String) (limit : Int) : List String → Nat → List String → Proc Op Err (List String)
  | [], _, appliedList => pure appliedList
  | v :: versions, n, appliedList =>
    if v ∈ applied then upLoop applied limit versions n appliedList
    else if limit > 0 ∧ (n : Int) ≥ limit then pure appliedList
    else do
      runHooks v (hooks v)
      execMigrationOn (s.up? v) true
      upLoop applied limit versions (n + 1) (appliedList ++ [v])

def up (limit : Int) : Proc Op Err (List String) :=
  withRunLock do
    let applied ← appliedOn
    match scan entries with
    | .error e => throw e
    | .ok s => upLoop hooks s applied limit s.versions 0 []

/-- The loop of `Down` over the applied versions, the greatest first. -/
def downLoop (full : Bool) (limit : Int) : List String → Nat → List String → Proc Op Err (List String)
  | [], _, rolled => pure rolled
  | v :: versions, n, rolled =>
    if ¬ full ∧ (n : Int) ≥ limit then pure rolled
    else match s.down? v with
      | none => throw (.missingDown v)
      | some down => do
        execMigrationOn down false
        downLoop full limit versions (n + 1) (rolled ++ [v])

def down (limit : Int) : Proc Op Err (List String) :=
  if limit = 0 then throw .limitZero
  else
    let full := limit < 0
    withRunLock do
      let applied ← appliedOn
      match scan entries with
      | .error e => throw e
      | .ok s => downLoop s full limit (s.versions.filter (· ∈ applied)).reverse 0 []

end Run

end Ploykit.Pgmigrate

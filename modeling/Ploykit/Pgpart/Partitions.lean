import Mathlib.Algebra.Group.Nat.Defs
import Mathlib.Data.List.Sort
import Ploykit.Lib.Calendar
import Ploykit.Lib.Script

/-!
# Monthly partitions

`platform/pgpart`. A round creates the partitions of this month and of the next ones,
and detaches and drops those whose month is over for long enough. Each statement is a
transaction of its own and may fail. The parent's name is one that PostgreSQL reads as
it stands, with room for the month.
-/

namespace Ploykit.Pgpart

open Lib

/-! ## Months and names -/

def defaultRetentionMonths : Int := 12

def ensureAhead : Nat := 2

structure Table where
  parent : String
  retentionMonths : Int
  deriving DecidableEq, Repr

structure Round where
  skipped : Bool := false
  created : List String := []
  dropped : List String := []
  deriving DecidableEq, Repr

def Table.retention (t : Table) : Int := if t.retentionMonths ≤ 0 then defaultRetentionMonths else t.retentionMonths

def monthStart (now : Time) : Time :=
  let d := Calendar.date now
  Calendar.daysToMonth d.year d.month * Calendar.microsPerDay

/-- A number in a format of `time`, with its sign and leading zeros. -/
def appendInt (x : Int) (width : Nat) : String := (if x < 0 then "-" else "") ++ Calendar.padded width x.natAbs

/-- `month.UTC().Format("2006_01")` -/
def formatMonth (month : Time) : String :=
  appendInt (Calendar.date month).year 4 ++ "_" ++ appendInt (Calendar.date month).month 2

def partitionName (parent : String) (month : Time) : String := parent ++ "_" ++ formatMonth month

/-- `time.Parse("2006_01", s)`: four digits, and the two digits of a month. -/
def parseMonth : List Char → Option Time
  | [a, b, c, d, '_', e, f] =>
    let month := Nat.ofDigitChars 10 [e, f] 0
    if [a, b, c, d, e, f].all Char.isDigit ∧ 1 ≤ month ∧ month ≤ 12 then
      some (Calendar.daysToMonth (Nat.ofDigitChars 10 [a, b, c, d] 0) month * Calendar.microsPerDay)
    else none
  | _ => none

def parsePartitionMonth (parent relname : String) : Option Time :=
  let start := (parent ++ "_").toList
  if start.isPrefixOf relname.toList then parseMonth (relname.toList.drop start.length) else none

/-! ## Relations and statements -/

/-- A relation of the schema, and how it belongs to the parent. -/
inductive State where
  | attached (lower upper : Time)
  /-- A concurrent detach has begun and is not finished. -/
  | detaching (lower upper : Time)
  | loose
  deriving DecidableEq, Repr

structure Relation where
  name : String
  state : State
  deriving DecidableEq, Repr

abbrev Db := List Relation

/-- It has a row in `pg_inherits`. -/
def State.inherits : State → Bool
  | attached _ _ => true
  | detaching _ _ => true
  | loose => false

inductive Op (E : Type) : Type → Type
  | acquire : Op E (Except E Unit)
  | tryAdvisoryLock (parent : String) : Op E (Except E Bool)
  | advisoryUnlock (parent : String) : Op E Unit
  | partitionAttached (name : String) : Op E (Except E Bool)
  /-- `CREATE TABLE IF NOT EXISTS ... PARTITION OF ... FOR VALUES FROM ... TO ...` -/
  | createPartition (name : String) (lower upper : Time) : Op E (Except E Unit)
  /-- The names of the relations that inherit from the parent, in order. -/
  | listPartitions : Op E (Except E (List String))
  /-- `ALTER TABLE ... DETACH PARTITION ... CONCURRENTLY` -/
  | detach (name : String) : Op E (Except E Unit)
  | drop (name : String) : Op E (Except E Unit)

namespace Db

variable (db : Db)

def attached (name : String) : Bool := db.any fun rel => rel.name = name && rel.state.inherits

def overlaps (lower upper : Time) : Bool :=
  db.any fun rel => match rel.state with
    | .attached lo hi => lo < upper && lower < hi
    | _ => false

def create (name : String) (lower upper : Time) : Db := ⟨name, .attached lower upper⟩ :: db

/-- The relations inheriting from the parent, in the order of their names. -/
def inheriting : List String := ((db.filter fun rel => rel.state.inherits).map (·.name)).insertionSort (· ≤ ·)

/-- The relation is put in another state. -/
def set (name : String) (f : State → State) : Db := db.map fun rel => if rel.name = name then { rel with state := f rel.state } else rel

def loosen (name : String) : Db := db.set name fun _ => .loose

def beginDetach (name : String) : Db :=
  db.set name fun
    | .attached lo hi => .detaching lo hi
    | state => state

/-- The partition is attached, and no other detach is unfinished. -/
def detachable (name : String) : Prop :=
  (∃ rel ∈ db, ∃ lo hi, rel.name = name ∧ rel.state = .attached lo hi) ∧ ∀ rel ∈ db, ∀ lo hi, rel.state ≠ .detaching lo hi

def remove (name : String) : Db := db.filter fun rel => rel.name ≠ name

end Db

variable {E : Type}

/-- The statement does what it is for. -/
def does : {β : Type} → Op E β → Db → Db → Prop
  | _, .createPartition name lower upper, db, db' =>
    ((∃ rel ∈ db, rel.name = name) ∧ db' = db) ∨
      ((∀ rel ∈ db, rel.name ≠ name) ∧ db.overlaps lower upper = false ∧ db' = db.create name lower upper)
  | _, .detach name, db, db' => db.detachable name ∧ db' = db.loosen name
  | _, .drop name, db, db' => (∃ rel ∈ db, rel.name = name) ∧ db' = db.remove name
  | _, _, db, db' => db' = db

/-- What a call may be answered, and what it leaves. A statement that fails may have been executed: the answer is
lost. A concurrent detach that fails may be left unfinished. -/
def step : {β : Type} → Op E β → Db → β → Db → Prop
  | _, .acquire, db, _, db' => db' = db
  | _, .tryAdvisoryLock _, db, _, db' => db' = db
  | _, .advisoryUnlock _, db, _, db' => db' = db
  | _, .partitionAttached name, db, r, db' => db' = db ∧ (r = .ok (db.attached name) ∨ ∃ e, r = .error e)
  | _, .listPartitions, db, r, db' => db' = db ∧ (r = .ok db.inheriting ∨ ∃ e, r = .error e)
  | _, .createPartition name lower upper, db, r, db' =>
    does (.createPartition name lower upper : Op E _) db db' ∨ (db' = db ∧ ∃ e, r = .error e)
  | _, .detach name, db, r, db' =>
    does (.detach name : Op E _) db db' ∨ ((db' = db ∨ (db.detachable name ∧ db' = db.beginDetach name)) ∧ ∃ e, r = .error e)
  | _, .drop name, db, r, db' => does (.drop name : Op E _) db db' ∨ (db' = db ∧ ∃ e, r = .error e)

/-! ## The round -/

inductive Err (E : Type) where
  | raw (e : E)
  | acquireConn (e : E)
  | advisoryLock (e : E)
  | createPartition (name : String) (e : E)
  | detach (name : String) (e : E)
  | dropDetached (name : String) (e : E)
  deriving DecidableEq, Repr

/-- The loop of `EnsureForward` over the months that are left. -/
def ensureMonths (t : Table) (now : Time) : List Nat → List String → Script (Op E) (List String × Option (Err E))
  | [], created => .ret (created, none)
  | i :: is, created =>
    let month := Calendar.addDate (monthStart now) 0 i 0
    let end' := Calendar.addDate month 0 1 0
    let name := partitionName t.parent month
    .call (.partitionAttached name) fun
      | .error e => .ret (created, some (.raw e))
      | .ok true => ensureMonths t now is created
      | .ok false =>
        .call (.createPartition name month end') fun
          | .error e => .ret (created, some (.createPartition name e))
          | .ok _ =>
            .call (.partitionAttached name) fun
              | .error e => .ret (created, some (.raw e))
              | .ok false => ensureMonths t now is created
              | .ok true => ensureMonths t now is (created ++ [name])

def ensureForward (t : Table) (now : Time) : Script (Op E) (List String × Option (Err E)) :=
  ensureMonths t now (List.range (ensureAhead + 1)) []

def cutoff (t : Table) (now : Time) : Time := Calendar.addDate (monthStart now) 0 (-(t.retention - 1)) 0

/-- The partition has the name of a month that ends before the cutoff. -/
def expired (t : Table) (now : Time) (name : String) : Bool :=
  match parsePartitionMonth t.parent name with
  | none => false
  | some month => ¬ cutoff t now < Calendar.addDate month 0 1 0

/-- The loop of `DropExpired` over the names that are left. -/
def dropNames (t : Table) (now : Time) : List String → List String → Script (Op E) (List String × Option (Err E))
  | [], dropped => .ret (dropped, none)
  | name :: names, dropped =>
    if expired t now name then
      .call (.detach name) fun
        | .error e => .ret (dropped, some (.detach name e))
        | .ok _ =>
          .call (.drop name) fun
            | .error e => .ret (dropped, some (.dropDetached name e))
            | .ok _ => dropNames t now names (dropped ++ [name])
    else dropNames t now names dropped

def dropExpired (t : Table) (now : Time) : Script (Op E) (List String × Option (Err E)) :=
  .call .listPartitions fun
    | .error e => .ret ([], some (.raw e))
    | .ok names => dropNames t now names []

/-- The work of a round under the lock. -/
def maintainLocked (t : Table) (now : Time) : Script (Op E) (Round × Option (Err E)) :=
  (ensureForward t now).bind fun
    | (created, some e) => .ret ({ created }, some e)
    | (created, none) => (dropExpired t now).bind fun r => .ret ({ created, dropped := r.1 }, r.2)

def maintain (t : Table) (now : Time) : Script (Op E) (Round × Option (Err E)) :=
  .call .acquire fun
    | .error e => .ret ({}, some (.acquireConn e))
    | .ok _ =>
      .call (.tryAdvisoryLock t.parent) fun
        | .error e => .ret ({}, some (.advisoryLock e))
        | .ok false => .ret ({ skipped := true }, none)
        | .ok true => (maintainLocked t now).bind fun r => .call (.advisoryUnlock t.parent) fun _ => .ret r

/-- Rounds at any times, one after the other. -/
inductive Rounds (Step : {β : Type} → Op E β → Db → β → Db → Prop) (t : Table) (db₀ : Db) : List (Time × Round × Option (Err E)) → Db → Prop
  | nil : Rounds @Step t db₀ [] db₀
  | next {rounds : List (Time × Round × Option (Err E))} {db db' : Db} {now : Time} {r : Round × Option (Err E)}
      (h : Rounds @Step t db₀ rounds db) (hround : Script.Path Step (maintain t now) db (.ret r) db') :
      Rounds @Step t db₀ ((now, r) :: rounds) db'

end Ploykit.Pgpart

import Ploykit.Lib.Checks
import Ploykit.Lib.Pool

/-!
# Transactions with row locks

A database is used by sessions. A session runs statements, inside a transaction
or on their own. A statement sees the committed database with the writes of its
own transaction on top (read committed). The rows and unique keys it writes or
locks must not be locked by another session; otherwise the statement waits, that
is, the session cannot take this step yet. A transaction keeps its locks until
it ends, and its writes reach the committed database when it commits.

Every call may also fail. A failed statement changes nothing. A failed commit
may have been applied or not: the caller cannot tell.
-/

namespace Ploykit.Lib

/-! ## Statements -/

variable {Stmt : Type → Type} {Db Resource Write E α : Type}

/-- What a statement does: its result, the rows and keys it locks, its writes. -/
structure Outcome (Resource Write β : Type) where
  value : β
  locks : List Resource := []
  writes : List Write := []

/-- The statements of a database. -/
structure Store (Stmt : Type → Type) (Db Resource Write E : Type) where
  /-- The outcome of a statement on what the session sees. Rows that satisfy
  `held` are locked by other sessions, for statements that skip such rows. -/
  eval : {β : Type} → Stmt β → (held : Resource → Bool) → Db → Except E (Outcome Resource Write β)
  apply : Db → Write → Db

/-- An open transaction: the locks it holds and the writes it will commit. -/
structure Tx (Resource Write : Type) where
  locks : List Resource
  writes : List Write

/-- A transaction that has done nothing. -/
def Tx.empty : Tx Resource Write := ⟨[], []⟩

/-- The transaction after one more statement. -/
def Tx.add {β : Type} (tx : Tx Resource Write) (o : Outcome Resource Write β) : Tx Resource Write :=
  ⟨tx.locks ++ o.locks, tx.writes ++ o.writes⟩

@[simp] theorem Tx.add_locks {β : Type} (tx : Tx Resource Write) (o : Outcome Resource Write β) :
    (tx.add o).locks = tx.locks ++ o.locks := rfl
@[simp] theorem Tx.add_writes {β : Type} (tx : Tx Resource Write) (o : Outcome Resource Write β) :
    (tx.add o).writes = tx.writes ++ o.writes := rfl
@[simp] theorem Tx.empty_locks : (Tx.empty : Tx Resource Write).locks = [] := rfl
@[simp] theorem Tx.empty_writes : (Tx.empty : Tx Resource Write).writes = [] := rfl

/-- The calls of a session. -/
inductive TxOp (Stmt : Type → Type) (E : Type) : Type → Type 1
  | begin : TxOp Stmt E (Except E Unit)
  | commit : TxOp Stmt E (Except E Unit)
  | rollback : TxOp Stmt E (Except E Unit)
  | stmt {β : Type} (s : Stmt β) : TxOp Stmt E (Except E β)

/-! ## Actions -/

/-- Why an action fails: the store failed, or the application refused. -/
inductive Failure (E W : Type) where
  | store (e : E)
  | app (w : W)
  deriving DecidableEq, Repr

/-- A session's program that may fail. -/
abbrev Action (Stmt : Type → Type) (E W : Type) := ExceptT (Failure E W) (Script (TxOp Stmt E))

namespace Action

variable {W β : Type}

/-- Issue a call, and fail if it fails. -/
def issue (o : TxOp Stmt E (Except E β)) : Action Stmt E W β :=
  ExceptT.mk (.call o fun r => .ret (r.mapError .store))

def query (s : Stmt β) : Action Stmt E W β := issue (.stmt s)
def commit : Action Stmt E W Unit := issue .commit
def rollback : Action Stmt E W Unit := issue .rollback

/-- Run an action and look at how it ended. -/
def attempt (m : Action Stmt E W β) : Action Stmt E W (Except (Failure E W) β) :=
  ExceptT.mk (m.run.bind fun r => .ret (.ok r))

/-- Begin a transaction, run `body` in it, and roll back what `body` has not
committed, also when it fails. -/
def inTx (body : Action Stmt E W β) : Action Stmt E W β :=
  ExceptT.mk (.call .begin fun
    | .error e => .ret (.error (.store e))
    | .ok () => body.run.bind fun r => .call .rollback fun _ => .ret r)

end Action

namespace Store

variable (S : Store Stmt Db Resource Write E)

/-- The database after the writes, in their order. -/
def applyAll (db : Db) (ws : List Write) : Db := ws.foldl S.apply db

/-- What a session sees: the committed database and its own writes. -/
def view (t : Option (Tx Resource Write)) (db : Db) : Db :=
  match t with
  | none => db
  | some tx => S.applyAll db tx.writes

@[simp] theorem applyAll_nil (db : Db) : S.applyAll db [] = db := rfl
@[simp] theorem applyAll_cons (db : Db) (w : Write) (ws : List Write) :
    S.applyAll db (w :: ws) = S.applyAll (S.apply db w) ws := rfl
@[simp] theorem view_none (db : Db) : S.view none db = db := rfl
@[simp] theorem view_some (tx : Tx Resource Write) (db : Db) :
    S.view (some tx) db = S.applyAll db tx.writes := rfl

/-- One call of a session whose transaction is `t`, over the committed database
`db`: the answer `r`, the transaction `t'` and the database `db'` it leaves. -/
def own (held : Resource → Bool) : {β : Type} → TxOp Stmt E β → Option (Tx Resource Write) → Db →
    β → Option (Tx Resource Write) → Db → Prop
  | _, .begin, t, db, r, t', db' => db' = db ∧
      ((r = .ok () ∧ t' = some (t.getD Tx.empty)) ∨ ∃ e, r = .error e ∧ t' = t)
  | _, .commit, t, db, r, t', db' => t' = none ∧
      (db' = S.view t db ∨ db' = db ∧ ∃ e, r = .error e)
  | _, .rollback, _, db, _, t', db' => t' = none ∧ db' = db
  | _, .stmt s, t, db, r, t', db' =>
      (t' = t ∧ db' = db ∧ ∃ e, r = .error e) ∨
      ∃ o, S.eval s held (S.view t db) = .ok o ∧ (∀ l ∈ o.locks, held l = false) ∧ r = .ok o.value ∧
        match t with
        | none => t' = none ∧ db' = S.applyAll db o.writes
        | some tx => t' = some (tx.add o) ∧ db' = db

/-- The committed database and the open transactions of the sessions. -/
structure Sys (Db Resource Write : Type) where
  db : Db
  tx : Nat → Option (Tx Resource Write)

/-- No transaction is open. -/
def Sys.quiet (db : Db) : Sys Db Resource Write := ⟨db, fun _ => none⟩

/-- Another session than `i` holds the lock on `r`. -/
def Sys.heldByOther (s : Sys Db Resource Write) (i : Nat) (r : Resource) : Prop :=
  ∃ j tx, j ≠ i ∧ s.tx j = some tx ∧ r ∈ tx.locks

/-- The sessions over the database. `env` is what else may happen to it. A
session that is cut off loses its transaction. -/
def machine (env : Db → Db → Prop) : Machine (TxOp Stmt E) (Sys Db Resource Write) where
  step i _ o s r s' := ∃ (held : Resource → Bool) (t' : Option (Tx Resource Write)) (db' : Db),
    (∀ l, held l = true ↔ s.heldByOther i l) ∧ S.own held o (s.tx i) s.db r t' db' ∧
      s' = ⟨db', Function.update s.tx i t'⟩
  abort i s := ⟨s.db, Function.update s.tx i none⟩
  env s s' := s'.tx = s.tx ∧ env s.db s'.db

/-! ## One session alone -/

/-- A call when nobody else is connected and nothing fails from outside. -/
def solo : {β : Type} → TxOp Stmt E β → Option (Tx Resource Write) × Db →
    β × Option (Tx Resource Write) × Db
  | _, .begin, (t, db) => (.ok (), some (t.getD Tx.empty), db)
  | _, .commit, (t, db) => (.ok (), none, S.view t db)
  | _, .rollback, (_, db) => (.ok (), none, db)
  | _, .stmt s, (t, db) =>
      match S.eval s (fun _ => false) (S.view t db) with
      | .error e => (.error e, t, db)
      | .ok o =>
          match t with
          | none => (.ok o.value, none, S.applyAll db o.writes)
          | some tx => (.ok o.value, some (tx.add o), db)

/-- The result of a program that runs alone on `db`, and the database it leaves. -/
def runSolo (m : Script (TxOp Stmt E) α) (db : Db) : α × Option (Tx Resource Write) × Db :=
  m.run S.solo (none, db)

/-! ### Rules for actions that run alone -/

section sp

variable {W β : Type} {db : Db} {t : Option (Tx Resource Write)} {tx : Tx Resource Write}

/-- The action, run alone, ends in `Q`. -/
def sp (m : Action Stmt E W α) (t : Option (Tx Resource Write)) (db : Db)
    (Q : Except (Failure E W) α → Option (Tx Resource Write) → Db → Prop) : Prop :=
  Q (m.run.run S.solo (t, db)).1 (m.run.run S.solo (t, db)).2.1 (m.run.run S.solo (t, db)).2.2

variable {S} {Q : Except (Failure E W) α → Option (Tx Resource Write) → Db → Prop}

theorem sp_pure {a : α} (h : Q (.ok a) t db) : S.sp (pure a) t db Q := h

theorem sp_throw {f : Failure E W} (h : Q (.error f) t db) : S.sp (throw f) t db Q := h

theorem sp_mono {R : Except (Failure E W) α → Option (Tx Resource Write) → Db → Prop} {m : Action Stmt E W α}
    (h : S.sp m t db R) (hRQ : ∀ r t' db', R r t' db' → Q r t' db') : S.sp m t db Q := hRQ _ _ _ h

theorem sp_bind {m : Action Stmt E W β} {f : β → Action Stmt E W α}
    (h : S.sp m t db fun r t' db' => match r with
      | .ok b => S.sp (f b) t' db' Q
      | .error e => Q (.error e) t' db') : S.sp (m >>= f) t db Q := by
  unfold sp at h ⊢
  rw [ExceptT.run_bind, Script.bind_eq, Script.run_bind]
  generalize m.run.run S.solo (t, db) = r at h ⊢
  obtain ⟨r, t', db'⟩ := r
  cases r with
  | ok b => exact h
  | error e => exact h

theorem sp_map {m : Action Stmt E W β} {f : β → α}
    (h : S.sp m t db fun r t' db' => Q (r.map f) t' db') : S.sp (f <$> m) t db Q := by
  rw [map_eq_pure_bind]
  refine sp_bind ?_
  unfold sp at h ⊢
  generalize m.run.run S.solo (t, db) = r at h ⊢
  obtain ⟨r, t', db'⟩ := r
  cases r with
  | ok b => exact h
  | error e => exact h

theorem sp_ite {c : Prop} [Decidable c] {m m' : Action Stmt E W α} (h : c → S.sp m t db Q)
    (h' : ¬ c → S.sp m' t db Q) : S.sp (if c then m else m') t db Q := by
  by_cases hc : c
  · rw [if_pos hc]
    exact h hc
  · rw [if_neg hc]
    exact h' hc

theorem sp_attempt {m : Action Stmt E W α} {Q : Except (Failure E W) (Except (Failure E W) α) → Option (Tx Resource Write) → Db → Prop}
    (h : S.sp m t db fun r t' db' => Q (.ok r) t' db') : S.sp (Action.attempt m) t db Q := by
  unfold sp at h ⊢
  rw [show (Action.attempt m).run = m.run.bind fun r => .ret (.ok r) from rfl, Script.run_bind]
  exact h

theorem sp_query {s : Stmt α} {o : Outcome Resource Write α}
    (ho : S.eval s (fun _ => false) (S.applyAll db tx.writes) = .ok o)
    (h : Q (.ok o.value) (some (tx.add o)) db) :
    S.sp (Action.query s : Action Stmt E W α) (some tx) db Q := by
  simpa [sp, Action.query, Action.issue, solo, ho] using h

theorem sp_query_auto {s : Stmt α} {o : Outcome Resource Write α}
    (ho : S.eval s (fun _ => false) db = .ok o)
    (h : Q (.ok o.value) none (S.applyAll db o.writes)) :
    S.sp (Action.query s : Action Stmt E W α) none db Q := by
  simpa [sp, Action.query, Action.issue, solo, ho] using h

theorem sp_query_fails {s : Stmt α} {e : E} (he : S.eval s (fun _ => false) db = .error e) (h : Q (.error (.store e)) none db) :
    S.sp (Action.query s : Action Stmt E W α) none db Q := by
  simpa [sp, Action.query, Action.issue, solo, he] using h

theorem sp_commit {Q : Except (Failure E W) Unit → Option (Tx Resource Write) → Db → Prop}
    (h : Q (.ok ()) none (S.applyAll db tx.writes)) :
    S.sp (Action.commit : Action Stmt E W Unit) (some tx) db Q := h

theorem sp_inTx {body : Action Stmt E W α}
    (h : S.sp body (some Tx.empty) db fun r _ db' => Q r none db') :
    S.sp (Action.inTx body) none db Q := by
  unfold sp at h ⊢
  rw [show (Action.inTx body).run = .call .begin _ from rfl, Script.run_call]
  simp only [solo, Option.getD_none, Script.run_bind, Script.run_call, Script.run_ret]
  exact h

/-- What an action does, run alone. -/
theorem sp_run {m : Action Stmt E W α} {r : Except (Failure E W) α} {db' : Db}
    (h : S.sp m none db fun r' t' db'' => r' = r ∧ t' = none ∧ db'' = db') :
    S.runSolo m.run db = (r, none, db') := by
  obtain ⟨hr, ht, hdb⟩ := h
  exact Prod.ext hr (Prod.ext ht hdb)

/-- What the rules say of an action holds where it runs alone. -/
theorem sp_runSolo {m : Action Stmt E W α} (h : S.sp m none db Q) :
    Q (S.runSolo m.run db).1 (S.runSolo m.run db).2.1 (S.runSolo m.run db).2.2 := h

/-- An action of which it is known what it does alone. -/
theorem sp_of_runSolo {m : Action Stmt E W α} {r : Except (Failure E W) α} {db' : Db}
    (h : S.runSolo m.run db = (r, t, db')) (hQ : Q r t db') : S.sp m none db Q := by
  unfold sp
  rw [show m.run.run S.solo (none, db) = (r, t, db') from h]
  exact hQ

attribute [irreducible] sp

end sp

/-- A call alone is one of the calls a session may make while no lock is held. -/
theorem own_solo {β : Type} (o : TxOp Stmt E β) (t : Option (Tx Resource Write)) (db : Db) :
    S.own (fun _ => false) o t db (S.solo o (t, db)).1 (S.solo o (t, db)).2.1
      (S.solo o (t, db)).2.2 := by
  cases o with
  | begin => exact ⟨rfl, .inl ⟨rfl, rfl⟩⟩
  | commit => exact ⟨rfl, .inl rfl⟩
  | rollback => exact ⟨rfl, rfl⟩
  | stmt s =>
    simp only [own, solo]
    cases he : S.eval s (fun _ => false) (S.view t db) with
    | error e => exact .inl ⟨rfl, rfl, e, rfl⟩
    | ok o =>
      refine .inr ⟨o, rfl, by simp, ?_⟩
      cases t with
      | none => exact ⟨rfl, rfl, rfl⟩
      | some tx => exact ⟨rfl, rfl, rfl⟩

variable {env : Db → Db → Prop} {progs : Script (TxOp Stmt E) α → Prop}
  {allows : {β : Type} → TxOp Stmt E β → Prop}
  {t t' : Option (Tx Resource Write)} {db db' : Db}

/-- The pool in which only session 0 may be busy. -/
def alone (t : Option (Tx Resource Write)) (db : Db) (m : Option (Script (TxOp Stmt E) α)) :
    Pool (TxOp Stmt E) (Sys Db Resource Write) α :=
  ⟨⟨db, Function.update (fun _ => none) 0 t⟩, Function.update (fun _ => none) 0 m⟩

@[simp] theorem alone_session (m : Option (Script (TxOp Stmt E) α)) :
    (alone t db m).session 0 = m := by simp [alone]

theorem alone_none (db : Db) (m : Option (Script (TxOp Stmt E) α)) :
    (alone none db m : Pool (TxOp Stmt E) (Sys Db Resource Write) α)
      = (Pool.idle (.quiet db)).move 0 m (.quiet db) := by
  have h : Function.update (fun _ : Nat => (none : Option (Tx Resource Write))) 0 none
      = fun _ => none := Function.update_eq_self 0 _
  simp only [alone, Pool.move, Pool.idle, Sys.quiet, h]

theorem alone_idle (db : Db) :
    (alone none db none : Pool (TxOp Stmt E) (Sys Db Resource Write) α) = .idle (.quiet db) := by
  have h : Function.update (fun _ : Nat => (none : Option (Script (TxOp Stmt E) α))) 0 none
      = fun _ => none := Function.update_eq_self 0 _
  simp only [alone_none, Pool.move, Pool.idle, h]

theorem alone_move (m m' : Option (Script (TxOp Stmt E) α)) :
    (alone t db m).move 0 m' ⟨db', Function.update (alone t db m).shared.tx 0 t'⟩
      = alone t' db' m' := by
  simp only [alone, Pool.move, Function.update_idem]

theorem alone_start {m : Script (TxOp Stmt E) α} (hm : progs m) (db : Db) :
    Pool.Next ((S.machine env).restrict allows) progs (.idle (.quiet db))
      (alone none db (some m)) := by
  rw [alone_none]
  exact .start rfl hm

theorem alone_exec {β : Type} {o : TxOp Stmt E β} {k : β → Script (TxOp Stmt E) α} {r : β}
    (ho : allows o) (h : S.own (fun _ => false) o t db r t' db') :
    Pool.Next ((S.machine env).restrict allows) progs (alone t db (some (.call o k)))
      (alone t' db' (some (k r))) := by
  have hfree : ∀ l, false = true ↔
      (alone t db (some (.call o k)) :
        Pool (TxOp Stmt E) (Sys Db Resource Write) α).shared.heldByOther 0 l := by
    intro l
    simp only [Bool.false_eq_true, false_iff]
    rintro ⟨j, tx, hj, htx, -⟩
    simp [alone, Function.update_of_ne hj] at htx
  rw [← alone_move (some (.call o k)) (some (k r))]
  exact .exec (alone_session _)
    ⟨ho, fun _ => false, t', db', hfree, by simpa [alone] using h, rfl⟩

theorem alone_finish (a : α) (db : Db) :
    Pool.Next ((S.machine env).restrict allows) progs (alone none db (some (.ret a)))
      (.idle (.quiet db)) := by
  let p : Pool (TxOp Stmt E) (Sys Db Resource Write) α := alone none db (some (.ret a))
  have hend : p.move 0 none p.shared = .idle (.quiet db) := by
    rw [← alone_idle]
    simp [p, alone, Pool.move]
  exact hend ▸ .finish (alone_session _)

variable {check : {β : Type} → TxOp Stmt E β → Bool}

/-- A program that runs alone is a run of the pool. -/
theorem runs_alone (hcheck : ∀ {β : Type} (o : TxOp Stmt E β), check o = true → allows o)
    (m : Script (TxOp Stmt E) α) (t : Option (Tx Resource Write)) (db : Db)
    (hm : m.runAll S.solo check (t, db) = true) :
    ∃ past, Run (Pool.Next ((S.machine env).restrict allows) progs) (alone t db (some m)) past
      (alone (m.run S.solo (t, db)).2.1 (m.run S.solo (t, db)).2.2
        (some (.ret (m.run S.solo (t, db)).1))) := by
  induction m generalizing t db with
  | ret a => exact ⟨[], .start⟩
  | call o k ih =>
    obtain ⟨ho, hk⟩ := Bool.and_eq_true_iff.1 hm
    obtain ⟨past, hrun⟩ := ih (S.solo o (t, db)).1 (S.solo o (t, db)).2.1 (S.solo o (t, db)).2.2 hk
    exact ⟨_, (Run.next .start (S.alone_exec (hcheck o ho) (S.own_solo o t db))).trans hrun⟩

/-- A program that runs alone takes the idle pool to a pool in which it has ended. -/
theorem runs_to_end (hcheck : ∀ {β : Type} (o : TxOp Stmt E β), check o = true → allows o)
    {m : Script (TxOp Stmt E) α} (hm : progs m) (hall : m.runAll S.solo check (none, db) = true)
    (hend : (S.runSolo m db).2.1 = none) :
    ∃ past, Run (Pool.Next ((S.machine env).restrict allows) progs)
      (.idle (.quiet db) : Pool (TxOp Stmt E) (Sys Db Resource Write) α) past
      (alone none (S.runSolo m db).2.2 (some (.ret (S.runSolo m db).1))) := by
  obtain ⟨past, hrun⟩ := @runs_alone _ _ _ _ _ _ S env progs allows check hcheck m none db hall
  rw [show (m.run S.solo (none, db)).2.1 = none from hend] at hrun
  exact ⟨_, (Run.next .start (S.alone_start hm db)).trans hrun⟩

/-- A program that runs alone takes the idle pool to the idle pool. -/
theorem runs_solo (hcheck : ∀ {β : Type} (o : TxOp Stmt E β), check o = true → allows o)
    {m : Script (TxOp Stmt E) α} (hm : progs m) (hall : m.runAll S.solo check (none, db) = true)
    (hend : (S.runSolo m db).2.1 = none) :
    ∃ past, Run (Pool.Next ((S.machine env).restrict allows) progs)
      (.idle (.quiet db) : Pool (TxOp Stmt E) (Sys Db Resource Write) α) past
      (.idle (.quiet (S.runSolo m db).2.2)) := by
  obtain ⟨past, hrun⟩ := S.runs_to_end hcheck hm hall hend
  exact ⟨_, .next hrun (S.alone_finish _ _)⟩

end Store

end Ploykit.Lib

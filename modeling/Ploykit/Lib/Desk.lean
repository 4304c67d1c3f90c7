import Ploykit.Lib.Invariant
import Ploykit.Lib.Schedule

/-!
# Transactions that are executed

A `Desk` has room for so many sessions, each with a transaction or none. Whether another
session holds a lock can be computed there, and so can the runs of programs that open
transactions. They are lifted to the machine of the store.
-/

namespace Ploykit.Lib

variable {Stmt : Type → Type} {Db Resource Write E α β : Type}

structure Desk (Db Resource Write : Type) where
  db : Db
  tx : List (Option (Tx Resource Write))

namespace Desk

variable (x : Desk Db Resource Write)

/-- No transaction is open, and there is room for `n` sessions. -/
def quiet (n : Nat) (db : Db) : Desk Db Resource Write := ⟨db, List.replicate n none⟩

def sys : Store.Sys Db Resource Write := ⟨x.db, fun i => x.tx[i]?.join⟩

def set (i : Nat) (t : Option (Tx Resource Write)) : Desk Db Resource Write := { x with tx := x.tx.set i t }

def held [DecidableEq Resource] (i : Nat) (r : Resource) : Bool :=
  (List.range x.tx.length).any fun j => j ≠ i ∧ x.tx[j]?.join.any fun tx => r ∈ tx.locks

variable {x}

theorem sys_quiet (n : Nat) (db : Db) : (quiet n db : Desk Db Resource Write).sys = .quiet db := by
  have hnone : ∀ i : Nat, (List.replicate n (none : Option (Tx Resource Write)))[i]?.join = none := by
    intro i
    rw [List.getElem?_replicate]
    split <;> rfl
  exact congrArg (Store.Sys.mk db) (funext hnone)

theorem held_iff [DecidableEq Resource] {i : Nat} {r : Resource} : x.held i r = true ↔ x.sys.heldByOther i r := by
  simp only [held, List.any_eq_true, List.mem_range, decide_eq_true_eq, Option.any_eq_true]
  constructor
  · rintro ⟨j, -, hj, tx, htx, hr⟩
    exact ⟨j, tx, hj, htx, hr⟩
  · rintro ⟨j, tx, hj, htx, hr⟩
    refine ⟨j, ?_, hj, tx, htx, hr⟩
    by_contra hlarge
    have hnone : x.tx[j]?.join = none := by rw [List.getElem?_eq_none (Nat.not_lt.1 hlarge)]; rfl
    cases hnone.symm.trans htx

theorem sys_set {i : Nat} {t : Option (Tx Resource Write)} (h : i < x.tx.length ∨ t = none) :
    (x.set i t).sys = ⟨x.db, Function.update x.sys.tx i t⟩ := by
  refine congrArg (Store.Sys.mk x.db) (funext fun j => ?_)
  change (x.tx.set i t)[j]?.join = _
  rw [List.getElem?_set]
  split
  · rename_i heq
    subst heq
    rw [Function.update_self]
    split
    · rfl
    · rename_i hlarge
      exact (h.resolve_left hlarge).symm
  · rename_i hne
    exact (Function.update_of_ne (Ne.symm hne) t x.sys.tx).symm

end Desk

namespace Store

variable (S : Store Stmt Db Resource Write E) (C : {β : Type} → Stmt β → Db → Bool) (env : Db → Db → Prop)

/-- The execution of a call that nobody's locks are in the way of, where the condition holds. -/
def ownExec (held : Resource → Bool) : {β : Type} → TxOp Stmt E β → Option (Tx Resource Write) → Db →
    Option (β × Option (Tx Resource Write) × Db)
  | _, .begin, t, db => some (.ok (), some (t.getD Tx.empty), db)
  | _, .commit, t, db => some (.ok (), none, S.view t db)
  | _, .rollback, _, db => some (.ok (), none, db)
  | _, .stmt s, t, db =>
    if C s (S.view t db) then
      match S.eval s held (S.view t db) with
      | .error e => some (.error e, t, db)
      | .ok o =>
        if o.locks.all fun r => ¬ held r then
          match t with
          | none => some (.ok o.value, none, S.applyAll db o.writes)
          | some tx => some (.ok o.value, some (tx.add o), db)
        else none
    else none

variable {S C env}

theorem ownExec_own {held : Resource → Bool} {o : TxOp Stmt E β} {t t' : Option (Tx Resource Write)} {db db' : Db} {r : β}
    (h : S.ownExec C held o t db = some (r, t', db')) : S.admits C t db o ∧ S.own held o t db r t' db' := by
  cases o with
  | begin =>
    cases h
    exact ⟨trivial, rfl, .inl ⟨rfl, rfl⟩⟩
  | commit =>
    cases h
    exact ⟨trivial, rfl, .inl rfl⟩
  | rollback =>
    cases h
    exact ⟨trivial, rfl, rfl⟩
  | stmt s =>
    simp only [ownExec] at h
    split at h
    · rename_i hpass
      refine ⟨hpass, ?_⟩
      split at h
      · rename_i e _
        cases h
        exact .inl ⟨rfl, rfl, e, rfl⟩
      · rename_i o heval
        split at h
        · rename_i hfree
          have hfree : ∀ l ∈ o.locks, held l = false := by simpa using hfree
          cases t with
          | none =>
            cases h
            exact .inr ⟨o, heval, hfree, rfl, rfl, rfl⟩
          | some tx =>
            cases h
            exact .inr ⟨o, heval, hfree, rfl, rfl, rfl⟩
        · cases h
    · cases h

variable [DecidableEq Resource]

variable (S C) in
/-- A call of a session that there is room for. -/
def deskExec (i : Nat) {β : Type} (o : TxOp Stmt E β) (x : Desk Db Resource Write) : Option (β × Desk Db Resource Write) :=
  if i < x.tx.length then
    (S.ownExec C (x.held i) o x.tx[i]?.join x.db).map fun (r, t', db') => (r, { x.set i t' with db := db' })
  else none

variable (S C env) in
def desks : Machine (TxOp Stmt E) (Desk Db Resource Write) where
  step i _ o x r x' := S.deskExec C i o x = some (r, x')
  abort i x := x.set i none
  env x x' := x'.tx = x.tx ∧ env x.db x'.db

/-- The pool over the machine of the store. -/
def deskPool (p : Pool (TxOp Stmt E) (Desk Db Resource Write) α) : Pool (TxOp Stmt E) (Sys Db Resource Write) α :=
  ⟨p.shared.sys, p.session⟩

variable {progs : Script (TxOp Stmt E) α → Prop} {p p' : Pool (TxOp Stmt E) (Desk Db Resource Write) α}

theorem next_desk (h : Pool.Next (S.desks C env) progs p p') :
    Pool.Next ((S.machine env).given (S.passes C)) progs (deskPool p) (deskPool p') := by
  cases h with
  | start hi hm => exact .start (p := deskPool p) hi hm
  | @exec i β o k r x' hi hs =>
    simp only [desks, deskExec] at hs
    split at hs
    · rename_i hroom
      obtain ⟨⟨r', t', db'⟩, hexec, heq⟩ := Option.map_eq_some_iff.1 hs
      cases heq
      obtain ⟨hpass, hown⟩ := ownExec_own hexec
      refine .exec (p := deskPool p) hi ⟨hpass, p.shared.held i, t', db', fun l => Desk.held_iff, hown, ?_⟩
      have hset : (p.shared.set i t').sys = _ := Desk.sys_set (.inl hroom)
      exact congrArg (Sys.mk db') (congrArg Sys.tx hset)
    · cases hs
  | finish hi => exact .finish (p := deskPool p) hi
  | @crash i m hi =>
    have hcrash : Pool.Next ((S.machine env).given (S.passes C)) progs (deskPool p)
        ((deskPool p).move i none ⟨p.shared.db, Function.update p.shared.sys.tx i none⟩) := .crash hi
    rw [← Desk.sys_set (.inr rfl)] at hcrash
    exact hcrash
  | @env x' hs =>
    obtain ⟨htx, henv⟩ := hs
    exact .env (p := deskPool p) ⟨by rw [deskPool, Desk.sys, htx]; rfl, henv⟩

/-- A schedule of sessions with transactions is played in the store. -/
theorem play_desk {turns : List (Turn (TxOp Stmt E) (Desk Db Resource Write) α)} {n : Nat} {db : Db}
    (hlegal : turns.Forall (Turn.Legal (S.desks C env) progs)) (check : Db → Bool)
    (h : (Pool.play (S.deskExec C) turns (.idle (.quiet n db))).any fun p => check p.shared.db) :
    ∃ past p, Run (Pool.Next ((S.machine env).given (S.passes C)) progs) (.idle (.quiet db)) past p ∧
      check p.shared.db := by
  obtain ⟨past, p, hrun, hcheck⟩ := Pool.play_any (fun _ _ _ _ _ _ hexec => hexec) hlegal h
  have hlifted : ∀ {past p}, Run (Pool.Next (S.desks C env) progs) (.idle (.quiet n db)) past p → ∃ past',
      Run (Pool.Next ((S.machine env).given (S.passes C)) progs) (.idle (.quiet db)) past' (deskPool p) := by
    intro past p hrun
    induction hrun with
    | start =>
      have hquiet : (deskPool (.idle (.quiet n db)) : Pool (TxOp Stmt E) (Sys Db Resource Write) α) = .idle (.quiet db) :=
        congrArg Pool.idle (Desk.sys_quiet n db)
      exact ⟨[], hquiet ▸ .start⟩
    | next _ hstep ih =>
      obtain ⟨past', hrun'⟩ := ih
      exact ⟨_, hrun'.next (next_desk hstep)⟩
  obtain ⟨past', hrun'⟩ := hlifted hrun
  exact ⟨past', _, hrun', hcheck⟩

end Store

end Ploykit.Lib

import Ploykit.Lib.RowLock

/-!
# Rely-guarantee reasoning for transactions

A `Protocol` says what the sessions over a database promise each other: an
invariant `Inv` of the committed database, and a guarantee `Guar l`, indexed by
labels, that every change of the committed database meets. In return a session
may rely on `Inv`, on `Evolves` (whatever any number of guaranteed changes keeps),
and on the rows it has locked staying the `same`.

`Protocol.wp` is the weakest precondition of one session's program under that
rely. `Protocol.sound` says that programs that satisfy it can be run by any
number of sessions, interleaved call by call: the committed database then goes
through a `Trace` of guaranteed changes, one for each transaction that commits,
and a `Journal` of the run says which session has made each.
-/

namespace Ploykit.Lib

variable {Stmt : Type → Type} {Db Resource Write E Label α β : Type}

/-- What the sessions over a store promise each other. -/
structure Protocol (S : Store Stmt Db Resource Write E) (Label : Type) where
  /-- The rows and keys a write changes. -/
  touches : Write → List Resource
  /-- The two databases agree on the row or key. -/
  same : Resource → Db → Db → Prop
  Inv : Db → Prop
  Guar : Label → Db → Db → Prop
  /-- What happens to the database besides the sessions. -/
  Env : Db → Db → Prop
  Evolves : Db → Db → Prop
  /-- Holds of a statement and what the session sees, each time one is issued. -/
  pre : {β : Type} → Stmt β → Db → Prop
  /-- The statements that may be executed in the runs considered. -/
  allowed : {β : Type} → Stmt β → Prop

namespace Protocol

variable {S : Store Stmt Db Resource Write E} (P : Protocol S Label)

/-- The committed database is left alone, or changes as guaranteed. `done` lists
what the session has committed, the latest first. -/
def Moves (done done' : List Label) (db db' : Db) : Prop :=
  (done' = done ∧ db' = db) ∨ ∃ l, done' = l :: done ∧ P.Guar l db db'

/-- The conditions on a protocol. -/
structure Lawful : Prop where
  same_refl : ∀ r db, P.same r db db
  same_trans : ∀ r a b c, P.same r a b → P.same r b c → P.same r a c
  frame : ∀ r w db, r ∉ P.touches w → P.same r db (S.apply db w)
  covered : ∀ {β : Type} (s : Stmt β) held db o, S.eval s held db = .ok o →
    ∀ w ∈ o.writes, ∀ r ∈ P.touches w, r ∈ o.locks
  evolves_refl : ∀ db, P.Evolves db db
  evolves_trans : ∀ a b c, P.Evolves a b → P.Evolves b c → P.Evolves a c
  guar : ∀ l db db', P.Inv db → P.Guar l db db' → P.Inv db' ∧ P.Evolves db db'
  env : ∀ db db', P.Inv db → P.Env db db' →
    P.Inv db' ∧ P.Evolves db db' ∧ ∀ r, P.same r db db'

/-- What a session with transaction `t` may rely on while others are at work. -/
structure Rely (t : Option (Tx Resource Write)) (db db' : Db) : Prop where
  inv : P.Inv db'
  evolves : P.Evolves db db'
  locked : ∀ tx, t = some tx → ∀ r ∈ tx.locks, P.same r db db'

/-- The calls that may be executed in the runs considered. -/
def allows : {β : Type} → TxOp Stmt E β → Prop
  | _, .stmt s => P.allowed s
  | _, _ => True

/-- What is asserted of a call when it is issued. -/
def asserts (t : Option (Tx Resource Write)) (db : Db) : {β : Type} → TxOp Stmt E β → Prop
  | _, .stmt s => P.pre s (S.view t db)
  | _, _ => True

/-- The program of a session keeps the promises, its statements are issued where
they should be, and it ends in `Q`. -/
def wp : Script (TxOp Stmt E) α → (α → List Label → Option (Tx Resource Write) → Db → Prop) →
    List Label → Option (Tx Resource Write) → Db → Prop
  | .ret a, Q, done, t, db => Q a done t db
  | .call o k, Q, done, t, db => ∀ db₁, P.Rely t db db₁ → P.asserts t db₁ o ∧
      (P.allows o → ∀ held r t' db', S.own held o t db₁ r t' db' →
        ∃ done', P.Moves done done' db₁ db' ∧ wp (k r) Q done' t' db')

/-- The commits that took the database from `db₀` to where it is, each with the
session that made it, the latest first. The environment may have acted in between. -/
inductive Trace (db₀ : Db) : List (Nat × Label) → Db → Prop
  | nil : Trace db₀ [] db₀
  | commit {log : List (Nat × Label)} {db db' : Db} {i : Nat} {l : Label} (h : Trace db₀ log db)
      (hl : P.Guar l db db') : Trace db₀ ((i, l) :: log) db'
  | env {log : List (Nat × Label)} {db db' : Db} (h : Trace db₀ log db)
      (he : P.Env db db') : Trace db₀ log db'

section rules

variable {P} {Q : α → List Label → Option (Tx Resource Write) → Db → Prop} {db db' : Db}
  {t : Option (Tx Resource Write)} {done : List Label}

/-! ## Rules -/

theorem Moves.stay : P.Moves done done db db := .inl ⟨rfl, rfl⟩

theorem Moves.commit {l : Label} (h : P.Guar l db db') : P.Moves done (l :: done) db db' :=
  .inr ⟨l, rfl, h⟩

theorem Rely.trans (L : P.Lawful) {db₁ db₂ : Db} (h : P.Rely t db db₁) (h' : P.Rely t db₁ db₂) :
    P.Rely t db db₂ where
  inv := h'.inv
  evolves := L.evolves_trans _ _ _ h.evolves h'.evolves
  locked := fun tx htx r hr => L.same_trans _ _ _ _ (h.locked tx htx r hr) (h'.locked tx htx r hr)

theorem Rely.refl (L : P.Lawful) (h : P.Inv db) : P.Rely t db db where
  inv := h
  evolves := L.evolves_refl db
  locked := fun _ _ r _ => L.same_refl r db

@[simp] theorem wp_ret (a : α) : P.wp (.ret a) Q done t db ↔ Q a done t db := Iff.rfl

theorem wp_bind (m : Script (TxOp Stmt E) α) (f : α → Script (TxOp Stmt E) β)
    {Q : β → List Label → Option (Tx Resource Write) → Db → Prop} :
    P.wp (m.bind f) Q done t db
      ↔ P.wp m (fun a done' t' db' => P.wp (f a) Q done' t' db') done t db := by
  induction m generalizing done t db with
  | ret a => rfl
  | call o k ih => simp only [Script.call_bind, wp, ih]

theorem wp_mono {m : Script (TxOp Stmt E) α}
    {Q' : α → List Label → Option (Tx Resource Write) → Db → Prop}
    (h : ∀ a done' t' db', Q a done' t' db' → Q' a done' t' db') (hm : P.wp m Q done t db) :
    P.wp m Q' done t db := by
  induction m generalizing done t db with
  | ret a => exact h a done t db hm
  | call o k ih =>
    intro db₁ hr
    obtain ⟨hpre, hstep⟩ := hm db₁ hr
    refine ⟨hpre, fun hall held r t' db' ho => ?_⟩
    obtain ⟨done', hmove, hk⟩ := hstep hall held r t' db' ho
    exact ⟨done', hmove, ih r hk⟩

theorem wp_begin {k : Except E Unit → Script (TxOp Stmt E) α}
    (h : ∀ db₁, P.Rely none db db₁ →
      P.wp (k (.ok ())) Q done (some Tx.empty) db₁ ∧ ∀ e, P.wp (k (.error e)) Q done none db₁) :
    P.wp (.call .begin k) Q done none db := by
  intro db₁ hr
  refine ⟨trivial, fun _ held r t' db' ho => ?_⟩
  obtain ⟨rfl, ⟨rfl, rfl⟩ | ⟨e, rfl, rfl⟩⟩ := ho
  · exact ⟨done, .stay, (h _ hr).1⟩
  · exact ⟨done, .stay, (h _ hr).2 e⟩

theorem wp_rollback {k : Except E Unit → Script (TxOp Stmt E) α}
    (h : ∀ db₁, P.Rely t db db₁ → ∀ r, P.wp (k r) Q done none db₁) :
    P.wp (.call .rollback k) Q done t db := by
  intro db₁ hr
  refine ⟨trivial, fun _ held r t' db' ho => ?_⟩
  obtain ⟨rfl, rfl⟩ := ho
  exact ⟨done, .stay, h _ hr r⟩

/-- Committing applies the writes. If it fails the writes may have been applied
all the same. -/
theorem wp_commit {tx : Tx Resource Write} {k : Except E Unit → Script (TxOp Stmt E) α}
    (h : ∀ db₁, P.Rely (some tx) db db₁ →
      (∃ done', P.Moves done done' db₁ (S.applyAll db₁ tx.writes) ∧
        ∀ r, P.wp (k r) Q done' none (S.applyAll db₁ tx.writes)) ∧
      ∀ e, P.wp (k (.error e)) Q done none db₁) :
    P.wp (.call .commit k) Q done (some tx) db := by
  intro db₁ hr
  obtain ⟨⟨done', hmove, hdone⟩, hlost⟩ := h db₁ hr
  refine ⟨trivial, fun _ held r t' db' ho => ?_⟩
  obtain ⟨rfl, rfl | ⟨rfl, e, rfl⟩⟩ := ho
  · exact ⟨done', hmove, hdone r⟩
  · exact ⟨done, .stay, hlost e⟩

/-- A statement inside a transaction. -/
theorem wp_stmt {tx : Tx Resource Write} {s : Stmt β} {k : Except E β → Script (TxOp Stmt E) α}
    (h : ∀ db₁, P.Rely (some tx) db db₁ → P.pre s (S.applyAll db₁ tx.writes) ∧
      (∀ e, P.wp (k (.error e)) Q done (some tx) db₁) ∧
      (P.allowed s → ∀ held o, S.eval s held (S.applyAll db₁ tx.writes) = .ok o →
        P.wp (k (.ok o.value)) Q done (some (tx.add o)) db₁)) :
    P.wp (.call (.stmt s) k) Q done (some tx) db := by
  intro db₁ hr
  obtain ⟨hpre, herr, hok⟩ := h db₁ hr
  refine ⟨hpre, fun hall held r t' db' ho => ⟨done, ?_⟩⟩
  rcases ho with ⟨rfl, rfl, e, rfl⟩ | ⟨o, ho, -, rfl, rfl, rfl⟩
  · exact ⟨.stay, herr e⟩
  · exact ⟨.stay, hok hall held o ho⟩

/-- A statement on its own, committed at once. -/
theorem wp_stmt_auto {s : Stmt β} {k : Except E β → Script (TxOp Stmt E) α}
    (h : ∀ db₁, P.Rely none db db₁ → P.pre s db₁ ∧ (∀ e, P.wp (k (.error e)) Q done none db₁) ∧
      (P.allowed s → ∀ held o, S.eval s held db₁ = .ok o →
        ∃ done', P.Moves done done' db₁ (S.applyAll db₁ o.writes) ∧
          P.wp (k (.ok o.value)) Q done' none (S.applyAll db₁ o.writes))) :
    P.wp (.call (.stmt s) k) Q done none db := by
  intro db₁ hr
  obtain ⟨hpre, herr, hok⟩ := h db₁ hr
  refine ⟨hpre, fun hall held r t' db' ho => ?_⟩
  rcases ho with ⟨rfl, rfl, e, rfl⟩ | ⟨o, ho, -, rfl, rfl, rfl⟩
  · exact ⟨done, .stay, herr e⟩
  · exact hok hall held o ho

/-- A program that has still calls to issue may wait. -/
theorem wp_rely (L : P.Lawful)
    (hQ : ∀ a done t db db', P.Rely t db db' → Q a done t db → Q a done t db')
    {m : Script (TxOp Stmt E) α} (h : P.wp m Q done t db) (hr : P.Rely t db db') :
    P.wp m Q done t db' := by
  cases m with
  | ret a => exact hQ a done t db db' hr h
  | call o k => exact fun db₁ hr₁ => h db₁ (hr.trans L hr₁)

end rules

/-! ## Rules for actions

`R` is what must hold where the action fails, of the failure, of what has been
committed, and of the transaction. -/

section actions

variable {P} {W : Type} {R : Failure E W → List Label → Option (Tx Resource Write) → Prop}
  {db db' : Db} {t : Option (Tx Resource Write)} {done : List Label}

variable (P) (R) in
/-- The action keeps the promises, ends in `Q` when it succeeds, and in `R` when
it fails. -/
def awp (m : Action Stmt E W α) (Q : α → List Label → Option (Tx Resource Write) → Db → Prop)
    (done : List Label) (t : Option (Tx Resource Write)) (db : Db) : Prop :=
  P.wp m.run (fun r done' t' db' => match r with
    | .ok a => Q a done' t' db'
    | .error f => R f done' t') done t db

variable {Q : α → List Label → Option (Tx Resource Write) → Db → Prop}

theorem awp_pure {a : α} (h : Q a done t db) :
    P.awp R (pure a : Action Stmt E W α) Q done t db := h

theorem awp_throw {f : Failure E W} (h : R f done t) :
    P.awp R (throw f : Action Stmt E W α) Q done t db := h

theorem awp_bind {m : Action Stmt E W β} {f : β → Action Stmt E W α}
    (h : P.awp R m (fun b done' t' db' => P.awp R (f b) Q done' t' db') done t db) :
    P.awp R (m >>= f) Q done t db := by
  refine (wp_bind _ _).2 (wp_mono ?_ h)
  intro r done' t' db' hr
  cases r with
  | ok b => exact hr
  | error e => exact hr

theorem awp_ite {c : Prop} [Decidable c] {m m' : Action Stmt E W α}
    (h : c → P.awp R m Q done t db) (h' : ¬ c → P.awp R m' Q done t db) :
    P.awp R (if c then m else m') Q done t db := by
  by_cases hc : c
  · rw [if_pos hc]
    exact h hc
  · rw [if_neg hc]
    exact h' hc

variable {m : Action Stmt E W α}

theorem awp_mono
    {Q' : α → List Label → Option (Tx Resource Write) → Db → Prop}
    (h : ∀ a done' t' db', Q a done' t' db' → Q' a done' t' db')
    (hm : P.awp R m Q done t db) : P.awp R m Q' done t db := by
  refine wp_mono ?_ hm
  intro r done' t' db' hr
  cases r with
  | ok a => exact h a done' t' db' hr
  | error e => exact hr

theorem awp_query {s : Stmt α} {tx : Tx Resource Write} (hR : ∀ e, R (.store e) done (some tx))
    (h : ∀ db₁, P.Rely (some tx) db db₁ → P.pre s (S.applyAll db₁ tx.writes) ∧
      (P.allowed s → ∀ held o, S.eval s held (S.applyAll db₁ tx.writes) = .ok o →
        Q o.value done (some (tx.add o)) db₁)) :
    P.awp R (Action.query s : Action Stmt E W α) Q done (some tx) db :=
  wp_stmt fun db₁ hr => ⟨(h db₁ hr).1, hR, (h db₁ hr).2⟩

/-- An action of which the caller sees how it ended. -/
theorem awp_attempt
    {Q : Except (Failure E W) α → List Label → Option (Tx Resource Write) → Db → Prop}
    (h : P.awp (fun f done' t' => ∀ db', Q (.error f) done' t' db') m
      (fun a done' t' db' => Q (.ok a) done' t' db') done t db) :
    P.awp R (Action.attempt m) Q done t db := by
  refine (wp_bind _ _).2 (wp_mono ?_ h)
  intro r done' t' db' hr
  cases r with
  | ok a => exact hr
  | error e => exact hr db'

theorem awp_query_auto {s : Stmt α} (hR : ∀ e, R (.store e) done none)
    (h : ∀ db₁, P.Rely none db db₁ → P.pre s db₁ ∧
      (P.allowed s → ∀ held o, S.eval s held db₁ = .ok o →
        ∃ done', P.Moves done done' db₁ (S.applyAll db₁ o.writes) ∧
          Q o.value done' none (S.applyAll db₁ o.writes))) :
    P.awp R (Action.query s : Action Stmt E W α) Q done none db :=
  wp_stmt_auto fun db₁ hr => ⟨(h db₁ hr).1, hR, (h db₁ hr).2⟩

theorem awp_commit {tx : Tx Resource Write}
    {Q : Unit → List Label → Option (Tx Resource Write) → Db → Prop}
    (hR : ∀ e, R (.store e) done none)
    (h : ∀ db₁, P.Rely (some tx) db db₁ →
      ∃ done', P.Moves done done' db₁ (S.applyAll db₁ tx.writes) ∧
        (∀ e, R (.store e) done' none) ∧ Q () done' none (S.applyAll db₁ tx.writes)) :
    P.awp R (Action.commit : Action Stmt E W Unit) Q done (some tx) db := by
  refine wp_commit fun db₁ hr => ⟨?_, hR⟩
  obtain ⟨done', hmove, hlost, hq⟩ := h db₁ hr
  refine ⟨done', hmove, fun r => ?_⟩
  cases r with
  | ok u => exact hq
  | error e => exact hlost e

theorem awp_rollback {Q : Unit → List Label → Option (Tx Resource Write) → Db → Prop}
    (hR : ∀ e, R (.store e) done none) (h : ∀ db₁, P.Rely t db db₁ → Q () done none db₁) :
    P.awp R (Action.rollback : Action Stmt E W Unit) Q done t db := by
  refine wp_rollback fun db₁ hr r => ?_
  cases r with
  | ok u => exact h db₁ hr
  | error e => exact hR e

/-- A transaction block may fail in any state: it is rolled back. -/
theorem awp_inTx {body : Action Stmt E W α} (hR : ∀ e, R (.store e) done none)
    (h : ∀ db₁, P.Rely none db db₁ → P.awp (fun f done' _ => R f done' none) body
      (fun a done' t' db' => ∀ db'', P.Rely t' db' db'' → Q a done' none db'')
      done (some Tx.empty) db₁) :
    P.awp R (Action.inTx body) Q done none db := by
  refine wp_begin fun db₁ hr => ⟨(wp_bind _ _).2 (wp_mono ?_ (h db₁ hr)), hR⟩
  intro r done' t' db' hbody
  refine wp_rollback fun db'' hr' _ => ?_
  cases r with
  | ok a => exact hbody db'' hr'
  | error e => exact hbody

/-- Look at how an action ends. -/
theorem awp_run
    {Q' : Except (Failure E W) α → List Label → Option (Tx Resource Write) → Db → Prop}
    (h : P.awp R m Q done t db)
    (hok : ∀ a done' t' db', Q a done' t' db' → Q' (.ok a) done' t' db')
    (herr : ∀ f done' t' db', R f done' t' → Q' (.error f) done' t' db') :
    P.wp m.run Q' done t db := by
  refine wp_mono ?_ h
  intro r done' t' db' hr
  cases r with
  | ok a => exact hok a done' t' db' hr
  | error e => exact herr e done' t' db' hr

/-- What holds of the failures of an action may be weakened. -/
theorem awp_fail_mono {R' : Failure E W → List Label → Option (Tx Resource Write) → Prop}
    (hm : P.awp R m Q done t db)
    (hR : ∀ f done' t', R f done' t' → R' f done' t') : P.awp R' m Q done t db :=
  awp_run hm (fun _ _ _ _ h => h) fun f done' t' _ h => hR f done' t' h

-- proofs about programs go by the rules above
attribute [irreducible] awp

end actions

/-! ## Soundness -/

section sound

variable {P} {Q : α → List Label → Db → Prop}

/-- The postcondition of a whole program: no transaction is left open. -/
def Final (Q : α → List Label → Db → Prop) (a : α) (done : List Label)
    (t : Option (Tx Resource Write)) (db : Db) : Prop :=
  t = none ∧ Q a done db

/-- The state of the pool that `wp` proofs keep up, when session `i` has committed
`cur i` since it started its program. -/
structure Good (P : Protocol S Label) (Q : α → List Label → Db → Prop) (cur : Nat → List Label)
    (p : Pool (TxOp Stmt E) (Store.Sys Db Resource Write) α) : Prop where
  inv : P.Inv p.shared.db
  covered : ∀ i tx, p.shared.tx i = some tx → ∀ w ∈ tx.writes, ∀ r ∈ P.touches w, r ∈ tx.locks
  exclusive : ∀ i j tx tx', i ≠ j → p.shared.tx i = some tx → p.shared.tx j = some tx' →
    ∀ r ∈ tx.locks, r ∉ tx'.locks
  idle : ∀ i, p.session i = none → p.shared.tx i = none
  busy : ∀ i m, p.session i = some m → P.wp m (Final Q) (cur i) (p.shared.tx i) p.shared.db

/-- The pool of the sessions, executing the allowed statements only. -/
def machine (P : Protocol S Label) : Machine (TxOp Stmt E) (Store.Sys Db Resource Write) :=
  (S.machine P.Env).restrict P.allows

/-- A run of the sessions with a journal of it. `log` has every commit with the
session that made it, the latest first, and `cur i` has those that session `i`
has made since it started its program. -/
inductive Journal (P : Protocol S Label) (progs : Script (TxOp Stmt E) α → Prop) (db₀ : Db) :
    List (Pool (TxOp Stmt E) (Store.Sys Db Resource Write) α) →
    Pool (TxOp Stmt E) (Store.Sys Db Resource Write) α →
    List (Nat × Label) → (Nat → List Label) → Prop
  | nil : Journal P progs db₀ [] (.idle (.quiet db₀)) [] fun _ => []
  | start {past : List _} {p : Pool _ _ α} {log : List (Nat × Label)} {cur : Nat → List Label}
      {i : Nat} {m : Script (TxOp Stmt E) α} (h : Journal P progs db₀ past p log cur)
      (hi : p.session i = none) (hm : progs m) :
      Journal P progs db₀ (p :: past) (p.move i (some m) p.shared) log (Function.update cur i [])
  | exec {past : List _} {p : Pool _ _ α} {log : List (Nat × Label)} {cur : Nat → List Label}
      {i : Nat} {β : Type} {o : TxOp Stmt E β} {k : β → Script (TxOp Stmt E) α} {r : β}
      {s' : Store.Sys Db Resource Write} (h : Journal P progs db₀ past p log cur)
      (hi : p.session i = some (.call o k)) (hs : P.machine.step i o p.shared r s')
      (hdb : s'.db = p.shared.db) :
      Journal P progs db₀ (p :: past) (p.move i (some (k r)) s') log cur
  | commit {past : List _} {p : Pool _ _ α} {log : List (Nat × Label)} {cur : Nat → List Label}
      {i : Nat} {β : Type} {o : TxOp Stmt E β} {k : β → Script (TxOp Stmt E) α} {r : β}
      {s' : Store.Sys Db Resource Write} {l : Label} (h : Journal P progs db₀ past p log cur)
      (hi : p.session i = some (.call o k)) (hs : P.machine.step i o p.shared r s')
      (hl : P.Guar l p.shared.db s'.db) :
      Journal P progs db₀ (p :: past) (p.move i (some (k r)) s') ((i, l) :: log)
        (Function.update cur i (l :: cur i))
  | finish {past : List _} {p : Pool _ _ α} {log : List (Nat × Label)} {cur : Nat → List Label}
      {i : Nat} {a : α} (h : Journal P progs db₀ past p log cur) (hi : p.session i = some (.ret a)) :
      Journal P progs db₀ (p :: past) (p.move i none p.shared) log cur
  | crash {past : List _} {p : Pool _ _ α} {log : List (Nat × Label)} {cur : Nat → List Label}
      {i : Nat} {m : Script (TxOp Stmt E) α} (h : Journal P progs db₀ past p log cur)
      (hi : p.session i = some m) :
      Journal P progs db₀ (p :: past) (p.move i none (P.machine.abort i p.shared)) log cur
  | env {past : List _} {p : Pool _ _ α} {log : List (Nat × Label)} {cur : Nat → List Label}
      {s' : Store.Sys Db Resource Write} (h : Journal P progs db₀ past p log cur)
      (hs : P.machine.env p.shared s') : Journal P progs db₀ (p :: past) ⟨s', p.session⟩ log cur

section journal

variable {progs : Script (TxOp Stmt E) α → Prop} {db₀ : Db}
  {past : List (Pool (TxOp Stmt E) (Store.Sys Db Resource Write) α)}
  {p : Pool (TxOp Stmt E) (Store.Sys Db Resource Write) α} {log : List (Nat × Label)}
  {cur : Nat → List Label}

/-- The commits of a journal take the database to where it is. -/
theorem Journal.trace (h : Journal P progs db₀ past p log cur) : P.Trace db₀ log p.shared.db := by
  induction h with
  | nil => exact .nil
  | start _ _ _ ih => exact ih
  | exec _ _ _ hdb ih => exact hdb ▸ ih
  | commit _ _ _ hl ih => exact ih.commit hl
  | finish _ _ ih => exact ih
  | crash _ _ ih => exact ih
  | env _ hs ih => exact ih.env hs.2

/-- What a session has committed since it started its program is in the log. -/
theorem Journal.mem_log (h : Journal P progs db₀ past p log cur) {i : Nat} {l : Label}
    (hl : l ∈ cur i) : (i, l) ∈ log := by
  induction h with
  | nil => cases hl
  | @start _ _ _ cur j _ _ _ _ ih =>
    by_cases hij : i = j
    · subst hij
      rw [Function.update_self] at hl
      cases hl
    · rw [Function.update_of_ne hij] at hl
      exact ih hl
  | exec _ _ _ _ ih => exact ih hl
  | @commit _ _ _ cur j _ _ _ _ _ _ _ _ _ _ ih =>
    by_cases hij : i = j
    · subst hij
      rw [Function.update_self] at hl
      rcases List.mem_cons.1 hl with rfl | hl
      · exact List.mem_cons_self
      · exact List.mem_cons_of_mem _ (ih hl)
    · rw [Function.update_of_ne hij] at hl
      exact List.mem_cons_of_mem _ (ih hl)
  | finish _ _ ih => exact ih hl
  | crash _ _ ih => exact ih hl
  | env _ _ ih => exact ih hl

end journal

variable {held : Resource → Bool} {o : TxOp Stmt E β} {t t' : Option (Tx Resource Write)}
  {db db' : Db} {r : β}

theorem same_applyAll (L : P.Lawful) {l : Resource} {ws : List Write}
    (h : ∀ w ∈ ws, l ∉ P.touches w) (db : Db) : P.same l db (S.applyAll db ws) := by
  induction ws generalizing db with
  | nil => exact L.same_refl l db
  | cons w ws ih =>
    have htail := ih (fun w' hw' => h w' (List.mem_cons_of_mem _ hw')) (S.apply db w)
    exact L.same_trans _ _ _ _ (L.frame l w db (h w List.mem_cons_self)) htail

/-- A call keeps the locks of its transaction, and takes only free ones. -/
theorem own_locks (h : S.own held o t db r t' db') {tx' : Tx Resource Write} (ht' : t' = some tx')
    {l : Resource} (hl : l ∈ tx'.locks) : (∃ tx, t = some tx ∧ l ∈ tx.locks) ∨ held l = false := by
  subst ht'
  cases o with
  | begin =>
    obtain ⟨-, ⟨-, ht⟩ | ⟨e, -, ht⟩⟩ := h
    · cases t with
      | none => simp at ht; subst ht; simp at hl
      | some tx => simp at ht; subst ht; exact .inl ⟨_, rfl, hl⟩
    · exact .inl ⟨tx', ht.symm, hl⟩
  | commit => cases h.1
  | rollback => cases h.1
  | stmt s =>
    rcases h with ⟨ht, -, -⟩ | ⟨out, -, hfree, -, h⟩
    · exact .inl ⟨tx', ht.symm, hl⟩
    · cases t with
      | none => cases h.1
      | some tx =>
        obtain ⟨ht, -⟩ := h
        cases ht
        rcases List.mem_append.1 hl with hl | hl
        · exact .inl ⟨tx, rfl, hl⟩
        · exact .inr (hfree l hl)

/-- A call keeps the writes of its transaction within its locks. -/
theorem own_covered (L : P.Lawful) (h : S.own held o t db r t' db')
    (hc : ∀ tx, t = some tx → ∀ w ∈ tx.writes, ∀ l ∈ P.touches w, l ∈ tx.locks) :
    ∀ tx', t' = some tx' → ∀ w ∈ tx'.writes, ∀ l ∈ P.touches w, l ∈ tx'.locks := by
  rintro tx' rfl w hw l hl
  cases o with
  | begin =>
    obtain ⟨-, ⟨-, ht⟩ | ⟨e, -, ht⟩⟩ := h
    · cases t with
      | none => simp at ht; subst ht; simp at hw
      | some tx => simp at ht; subst ht; exact hc _ rfl w hw l hl
    · exact hc tx' ht.symm w hw l hl
  | commit => cases h.1
  | rollback => cases h.1
  | stmt s =>
    rcases h with ⟨ht, -, -⟩ | ⟨out, hev, -, -, h⟩
    · exact hc tx' ht.symm w hw l hl
    · cases t with
      | none => cases h.1
      | some tx =>
        obtain ⟨ht, -⟩ := h
        cases ht
        rcases List.mem_append.1 hw with hw | hw
        · exact List.mem_append_left _ (hc tx rfl w hw l hl)
        · exact List.mem_append_right _ (L.covered s _ _ out hev w hw l hl)

/-- A call leaves alone what other sessions have locked. -/
theorem own_same (L : P.Lawful) (h : S.own held o t db r t' db')
    (hc : ∀ tx, t = some tx → ∀ w ∈ tx.writes, ∀ l ∈ P.touches w, l ∈ tx.locks) {l : Resource}
    (hheld : held l = true) (hl : ∀ tx, t = some tx → l ∉ tx.locks) : P.same l db db' := by
  cases o with
  | begin => exact h.1 ▸ L.same_refl l db
  | rollback => exact h.2 ▸ L.same_refl l db
  | commit =>
    obtain ⟨-, hdb | ⟨hdb, -⟩⟩ := h
    · subst hdb
      cases t with
      | none => exact L.same_refl l db
      | some tx => exact same_applyAll L (fun w hw hlw => hl tx rfl (hc tx rfl w hw l hlw)) db
    · exact hdb ▸ L.same_refl l db
  | stmt s =>
    rcases h with ⟨-, hdb, -⟩ | ⟨out, hev, hfree, -, h⟩
    · exact hdb ▸ L.same_refl l db
    · cases t with
      | none =>
        obtain ⟨-, hdb⟩ := h
        subst hdb
        refine same_applyAll L (fun w hw hlw => ?_) db
        have hlock := hfree l (L.covered s _ _ out hev w hw l hlw)
        rw [hheld] at hlock
        cases hlock
      | some tx => exact h.2 ▸ L.same_refl l db

variable {p p' : Pool (TxOp Stmt E) (Store.Sys Db Resource Write) α}
  {progs : Script (TxOp Stmt E) α → Prop}

/-- The locks of another session's transaction are held by another session. -/
theorem held_of_other {s : Store.Sys Db Resource Write} {i j : Nat} {tx : Tx Resource Write}
    {l : Resource} (hheld : ∀ l, held l = true ↔ s.heldByOther i l) (hji : j ≠ i)
    (hj : s.tx j = some tx) (hl : l ∈ tx.locks) : held l = true :=
  (hheld l).2 ⟨j, tx, hji, hj, hl⟩

variable {cur : Nat → List Label}

theorem Good.exec (L : P.Lawful)
    (hQ : ∀ a done db db', P.Inv db' → P.Evolves db db' → Q a done db → Q a done db')
    (hg : Good P Q cur p) {i : Nat} {k : β → Script (TxOp Stmt E) α}
    (hi : p.session i = some (.call o k)) {s' : Store.Sys Db Resource Write}
    (hs : P.machine.step i o p.shared r s') :
    ∃ done', P.Moves (cur i) done' p.shared.db s'.db ∧
      Good P Q (Function.update cur i done') (p.move i (some (k r)) s') := by
  obtain ⟨hall, held, t', db', hheld, hown, rfl⟩ := hs
  obtain ⟨-, hstep⟩ := hg.busy i _ hi p.shared.db (Rely.refl L hg.inv)
  obtain ⟨done', hmove, hk⟩ := hstep hall held r t' db' hown
  have hafter : P.Inv db' ∧ P.Evolves p.shared.db db' := by
    rcases hmove with ⟨-, rfl⟩ | ⟨l, -, hl⟩
    · exact ⟨hg.inv, L.evolves_refl _⟩
    · exact L.guar l _ _ hg.inv hl
  have hlocks : ∀ j tx tx', j ≠ i → p.shared.tx j = some tx → t' = some tx' →
      ∀ l ∈ tx.locks, l ∉ tx'.locks := by
    intro j tx tx' hji hj ht' l hl hl'
    rcases own_locks hown ht' hl' with ⟨tx₀, htx₀, hl₀⟩ | hfree
    · exact hg.exclusive j i tx tx₀ hji hj htx₀ l hl hl₀
    · rw [held_of_other hheld hji hj hl] at hfree
      cases hfree
  have hrely : ∀ j, j ≠ i → P.Rely (p.shared.tx j) p.shared.db db' := by
    refine fun j hji => ⟨hafter.1, hafter.2, fun tx hj l hl => ?_⟩
    exact own_same L hown (hg.covered i) (held_of_other hheld hji hj hl)
      fun tx₀ htx₀ => hg.exclusive j i tx tx₀ hji hj htx₀ l hl
  refine ⟨done', hmove, hafter.1, ?_, ?_, ?_, ?_⟩
  · intro j tx hj
    by_cases hji : j = i
    · subst hji
      exact own_covered L hown (hg.covered j) tx (by simpa using hj)
    · exact hg.covered j tx (by simpa [Function.update_of_ne hji] using hj)
  · intro j₁ j₂ tx₁ tx₂ hne h₁ h₂
    by_cases h₁i : j₁ = i <;> by_cases h₂i : j₂ = i
    · exact absurd (h₁i.trans h₂i.symm) hne
    · subst h₁i
      simp only [Pool.move_shared, Function.update_self, Function.update_of_ne h₂i] at h₁ h₂
      exact fun l hl hl' => hlocks j₂ tx₂ tx₁ h₂i h₂ h₁ l hl' hl
    · subst h₂i
      simp only [Pool.move_shared, Function.update_self, Function.update_of_ne h₁i] at h₁ h₂
      exact hlocks j₁ tx₁ tx₂ h₁i h₁ h₂
    · simp only [Pool.move_shared, Function.update_of_ne h₁i, Function.update_of_ne h₂i] at h₁ h₂
      exact hg.exclusive j₁ j₂ tx₁ tx₂ hne h₁ h₂
  · intro j hj
    by_cases hji : j = i
    · subst hji
      simp at hj
    · rw [Pool.move_session_ne _ _ _ hji] at hj
      simpa [Function.update_of_ne hji] using hg.idle j hj
  · intro j m hj
    by_cases hji : j = i
    · subst hji
      simp only [Pool.move_session_self, Option.some.injEq] at hj
      subst hj
      simpa using hk
    · rw [Pool.move_session_ne _ _ _ hji] at hj
      simp only [Pool.move_shared, Function.update_of_ne hji]
      refine wp_rely L ?_ (hg.busy j m hj) (hrely j hji)
      exact fun a done t db₁ db₂ hr hq => ⟨hq.1, hQ a done db₁ db₂ hr.inv hr.evolves hq.2⟩

/-- A session that stops, or starts over, without a transaction. -/
theorem Good.replace (hg : Good P Q cur p) (i : Nat)
    (m : Option (Script (TxOp Stmt E) α)) (done : List Label)
    (hm : ∀ m', m = some m' → P.wp m' (Final Q) done none p.shared.db) :
    Good P Q (Function.update cur i done)
      (p.move i m ⟨p.shared.db, Function.update p.shared.tx i none⟩) := by
  have htx : ∀ j tx, Function.update p.shared.tx i none j = some tx → p.shared.tx j = some tx := by
    intro j tx hj
    by_cases hji : j = i
    · subst hji
      simp at hj
    · simpa [Function.update_of_ne hji] using hj
  refine ⟨hg.inv, fun j tx hj => hg.covered j tx (htx j tx hj), ?_, ?_, ?_⟩
  · exact fun j₁ j₂ tx₁ tx₂ hne h₁ h₂ => hg.exclusive j₁ j₂ tx₁ tx₂ hne (htx _ _ h₁) (htx _ _ h₂)
  · intro j hj
    by_cases hji : j = i
    · subst hji
      simp
    · rw [Pool.move_session_ne _ _ _ hji] at hj
      simpa [Function.update_of_ne hji] using hg.idle j hj
  · intro j m' hj
    by_cases hji : j = i
    · subst hji
      simpa using hm m' (by simpa using hj)
    · rw [Pool.move_session_ne _ _ _ hji] at hj
      simpa [Function.update_of_ne hji] using hg.busy j m' hj

/-- A session that stops. -/
theorem Good.stop (hg : Good P Q cur p) (i : Nat) :
    Good P Q cur (p.move i none ⟨p.shared.db, Function.update p.shared.tx i none⟩) := by
  have hnext := hg.replace i none (cur i) fun m' e => by cases e
  rwa [Function.update_eq_self] at hnext

theorem update_none_of_none {s : Store.Sys Db Resource Write} {i : Nat} (h : s.tx i = none) :
    (⟨s.db, Function.update s.tx i none⟩ : Store.Sys Db Resource Write) = s := by
  rw [← h, Function.update_eq_self]

/-- Every step of the pool keeps it good, and can be entered in the journal. -/
theorem Good.next (L : P.Lawful)
    (hprogs : ∀ m, progs m → ∀ db, P.Inv db → P.wp m (Final Q) [] none db)
    (hQ : ∀ a done db db', P.Inv db' → P.Evolves db db' → Q a done db → Q a done db')
    {db₀ : Db} {past : List (Pool (TxOp Stmt E) (Store.Sys Db Resource Write) α)}
    {log : List (Nat × Label)} (hg : Good P Q cur p)
    (hj : Journal P progs db₀ past p log cur) (h : Pool.Next P.machine progs p p') :
    ∃ log' cur', Good P Q cur' p' ∧ Journal P progs db₀ (p :: past) p' log' cur' := by
  cases h with
  | @start i m hi hm =>
    have hnext := hg.replace i (some m) [] fun m' e => by cases e; exact hprogs m hm _ hg.inv
    rw [update_none_of_none (hg.idle i hi)] at hnext
    exact ⟨log, _, hnext, hj.start hi hm⟩
  | @exec i _ _ _ _ _ hi hs =>
    obtain ⟨done', ⟨rfl, hdb⟩ | ⟨l, rfl, hl⟩, hnext⟩ := hg.exec L hQ hi hs
    · rw [Function.update_eq_self] at hnext
      exact ⟨log, cur, hnext, hj.exec hi hs hdb⟩
    · exact ⟨(i, l) :: log, _, hnext, hj.commit hi hs hl⟩
  | @finish i a hi =>
    have hnext := hg.stop i
    rw [update_none_of_none (hg.busy i _ hi).1] at hnext
    exact ⟨log, cur, hnext, hj.finish hi⟩
  | @crash i m hi => exact ⟨log, cur, hg.stop i, hj.crash hi⟩
  | @env s' hs =>
    have hs' := hs
    obtain ⟨htx, henv⟩ := hs
    obtain ⟨hinv, hev, hsame⟩ := L.env _ _ hg.inv henv
    refine ⟨log, cur, ⟨hinv, ?_, ?_, ?_, ?_⟩, hj.env hs'⟩
    · simpa only [htx] using hg.covered
    · simpa only [htx] using hg.exclusive
    · simpa only [htx] using hg.idle
    · intro i m hi
      simp only [htx]
      refine wp_rely L ?_ (hg.busy i m hi) ⟨hinv, hev, fun tx _ l _ => hsame l⟩
      exact fun a done t db₁ db₂ hr hq => ⟨hq.1, hQ a done db₁ db₂ hr.inv hr.evolves hq.2⟩

/-- However the sessions are interleaved, the pool stays good, and the run has a
journal. -/
theorem sound (L : P.Lawful)
    (hprogs : ∀ m, progs m → ∀ db, P.Inv db → P.wp m (Final Q) [] none db)
    (hQ : ∀ a done db db', P.Inv db' → P.Evolves db db' → Q a done db → Q a done db')
    {db₀ : Db} (h₀ : P.Inv db₀) {past : List (Pool (TxOp Stmt E) (Store.Sys Db Resource Write) α)}
    (h : Run (Pool.Next P.machine progs) (.idle (.quiet db₀)) past p) :
    ∃ log cur, Good P Q cur p ∧ Journal P progs db₀ past p log cur := by
  induction h with
  | start =>
    refine ⟨[], fun _ => [], ⟨h₀, ?_, ?_, fun _ _ => rfl, ?_⟩, .nil⟩
    · rintro i tx ⟨⟩
    · rintro i j tx tx' - ⟨⟩
    · rintro i m ⟨⟩
  | next _ step ih =>
    obtain ⟨log, cur, hg, hj⟩ := ih
    exact hg.next L hprogs hQ hj step

/-- What is asserted of a statement holds whenever a session is about to issue it. -/
theorem Good.asserts (L : P.Lawful) (hg : Good P Q cur p) {i : Nat}
    {k : β → Script (TxOp Stmt E) α} (hi : p.session i = some (.call o k)) :
    P.asserts (p.shared.tx i) p.shared.db o :=
  (hg.busy i _ hi p.shared.db (Rely.refl L hg.inv)).1

/-- A program that has ended has reached its postcondition. -/
theorem Good.result (hg : Good P Q cur p) {i : Nat} {a : α}
    (hi : p.session i = some (.ret a)) : Q a (cur i) p.shared.db :=
  (hg.busy i _ hi).2

/-- The invariant holds all along a trace. -/
theorem Trace.inv (L : P.Lawful) {db₀ : Db} {log : List (Nat × Label)} (h : P.Trace db₀ log db)
    (h₀ : P.Inv db₀) : P.Inv db := by
  induction h with
  | nil => exact h₀
  | commit _ hl ih => exact (L.guar _ _ _ ih hl).1
  | env _ he ih => exact (L.env _ _ ih he).1

/-- The databases before and after one of the commits. -/
theorem Trace.split {db₀ : Db} {log : List (Nat × Label)} (h : P.Trace db₀ log db) {c : Nat × Label}
    (hc : c ∈ log) : ∃ log₁ log₂ db₁ db₂, log = log₂ ++ c :: log₁ ∧ P.Trace db₀ log₁ db₁ ∧
      P.Guar c.2 db₁ db₂ := by
  induction h with
  | nil => cases hc
  | @commit log db₁ db₂ i l h hl ih =>
    rcases List.mem_cons.1 hc with rfl | hc
    · exact ⟨log, [], db₁, db₂, rfl, h, hl⟩
    · obtain ⟨log₁, log₂, db₃, db₄, rfl, htrace, hguar⟩ := ih hc
      exact ⟨log₁, (i, l) :: log₂, db₃, db₄, rfl, htrace, hguar⟩
  | env h he ih => exact ih hc

end sound

end Protocol

end Ploykit.Lib

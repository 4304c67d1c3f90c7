import Ploykit.Lib.Monitor
import Ploykit.Lib.RelyGuarantee
import Ploykit.Lib.Schedule

/-!
# Invariants of a store

The simplest rely-guarantee protocol: every commit keeps an invariant. An action that
is `Kept` can be run by any session, and one that is `Mild` in any transaction.

Runs under a condition on the statements are runs of the store whose statements fail
where the condition does not hold. Where no transaction is open, a run needs only the
committed database: such runs are executed, and lifted to the machine with transactions.
-/

namespace Ploykit.Lib

variable {Stmt : Type → Type} {Db Resource Write E α β : Type}

/-! ## Conditions on statements -/

namespace Store

variable (S : Store Stmt Db Resource Write E) (C : {β : Type} → Stmt β → Db → Bool) (e : E)

/-- The store whose statements fail where the condition does not hold. -/
def checked : Store Stmt Db Resource Write E where
  eval s held db := if C s db then S.eval s held db else .error e
  apply := S.apply

/-- The condition holds of the statement and of what its session sees. -/
def admits (t : Option (Tx Resource Write)) (db : Db) : {β : Type} → TxOp Stmt E β → Prop
  | _, .stmt s => C s (S.view t db)
  | _, _ => True

def passes (i : Nat) {β : Type} (o : TxOp Stmt E β) (x : Sys Db Resource Write) : Prop := S.admits C (x.tx i) x.db o

variable {S C e}

theorem eval_checked {s : Stmt β} {held : Resource → Bool} {db : Db} {o : Outcome Resource Write β}
    (h : (S.checked C e).eval s held db = .ok o) : C s db ∧ S.eval s held db = .ok o := by
  simp only [checked] at h
  split at h
  · exact ⟨‹_›, h⟩
  · cases h

theorem own_checked {held : Resource → Bool} {o : TxOp Stmt E β} {t t' : Option (Tx Resource Write)} {db db' : Db}
    {r : β} (h : S.own held o t db r t' db') (hpass : S.admits C t db o) :
    (S.checked C e).own held o t db r t' db' := by
  cases o with
  | begin => exact h
  | commit => exact h
  | rollback => exact h
  | stmt s =>
    rcases h with hfailed | ⟨o, heval, hrest⟩
    · exact .inl hfailed
    · exact .inr ⟨o, (if_pos hpass).trans heval, hrest⟩

variable {env : Db → Db → Prop} {progs : Script (TxOp Stmt E) α → Prop}
  {p p' : Pool (TxOp Stmt E) (Sys Db Resource Write) α}

theorem next_checked (h : Pool.Next ((S.machine env).given (S.passes C)) progs p p') :
    Pool.Next ((S.checked C e).machine env) progs p p' := by
  cases h with
  | start hi hm => exact .start hi hm
  | exec hi hs =>
    obtain ⟨hpass, held, t', db', hheld, hown, rfl⟩ := hs
    exact .exec hi ⟨held, t', db', hheld, own_checked hown hpass, rfl⟩
  | finish hi => exact .finish hi
  | crash hi => exact .crash hi
  | env hs => exact .env hs

end Store

/-! ## The protocol of an invariant -/

namespace Protocol

variable (S : Store Stmt Db Resource Write E) (touches : Write → List Resource) (same : Resource → Db → Db → Prop)
  (env : Db → Db → Prop) (I : Db → Prop)

/-- The sessions that keep `I`. -/
def keeping : Protocol S Unit where
  touches := touches
  same := same
  Inv := I
  Guar _ _ db' := I db'
  Env := env
  Evolves _ _ := True
  pre _ _ := True
  allowed _ := True

/-- What `touches` and `same` have to satisfy. -/
structure Framed : Prop where
  refl : ∀ r db, same r db db
  trans : ∀ r a b c, same r a b → same r b c → same r a c
  frame : ∀ r w db, r ∉ touches w → same r db (S.apply db w)
  covered : ∀ {β : Type} (s : Stmt β) held db o, S.eval s held db = .ok o → ∀ w ∈ o.writes, ∀ r ∈ touches w, r ∈ o.locks
  env : ∀ r db db', env db db' → same r db db'

variable {S touches same env I}

theorem Framed.checked {C : {β : Type} → Stmt β → Db → Bool} {e : E} (h : Framed S touches same env) :
    Framed (S.checked C e) touches same env where
  refl := h.refl
  trans := h.trans
  frame := h.frame
  covered s held db o ho := h.covered s held db o (Store.eval_checked ho).2
  env := h.env

theorem keeping_lawful (h : Framed S touches same env) (henv : ∀ db db', I db → env db db' → I db') :
    (keeping S touches same env I).Lawful where
  same_refl := h.refl
  same_trans := h.trans
  frame := h.frame
  covered := h.covered
  evolves_refl _ := trivial
  evolves_trans _ _ _ _ _ := trivial
  guar _ _ _ _ hI := ⟨hI, trivial⟩
  env db db' hI he := ⟨henv db db' hI he, trivial, fun r => h.env r db db' he⟩

/-! ## Actions that keep the invariant -/

section kept

variable {W : Type}

/-- Outside of transactions the action keeps the invariant, and it leaves none open. -/
def Kept (P : Protocol S Unit) (m : Action Stmt E W α) : Prop :=
  ∀ done db, P.awp (fun _ _ t => t = none) m (fun _ _ t _ => t = none) done none db

/-- The invariant survives the writes at any time. -/
def MildTx (S : Store Stmt Db Resource Write E) (I : Db → Prop) (tx : Tx Resource Write) : Prop :=
  ∀ w ∈ tx.writes, ∀ db, I db → I (S.apply db w)

/-- Within a transaction the action writes what the invariant survives at any time. -/
def Mild (P : Protocol S Unit) (m : Action Stmt E W α) : Prop :=
  ∀ done tx db, MildTx S P.Inv tx →
    P.awp (fun _ _ _ => True) m (fun _ _ t _ => ∃ tx, t = some tx ∧ MildTx S P.Inv tx) done (some tx) db

/-- Outside of transactions the action keeps the invariant, and what it ends with satisfies `Q`. -/
def Yields (P : Protocol S Unit) (m : Action Stmt E W α) (Q : α → Prop) : Prop :=
  ∀ done db, P.awp (fun _ _ t => t = none) m (fun a _ t _ => t = none ∧ Q a) done none db

section rules

variable {P : Protocol S Unit}

theorem kept_pure {a : α} : Kept P (pure a : Action Stmt E W α) := fun _ _ => awp_pure rfl

theorem kept_throw {f : Failure E W} : Kept P (throw f : Action Stmt E W α) := fun _ _ => awp_throw rfl

variable {f : β → Action Stmt E W α} {m : Action Stmt E W β}

theorem kept_bind (hm : Kept P m) (hf : ∀ b, Kept P (f b)) :
    Kept P (m >>= f) := by
  intro done db
  refine awp_bind (awp_mono ?_ (hm done db))
  rintro b done' t' db' rfl
  exact hf b done' db'

theorem kept_ite {c : Prop} [Decidable c] {m m' : Action Stmt E W α} (h : c → Kept P m) (h' : ¬ c → Kept P m') :
    Kept P (if c then m else m') := fun done db => awp_ite (fun hc => h hc done db) fun hc => h' hc done db

theorem kept_attempt {m : Action Stmt E W α} (hm : Kept P m) : Kept P (Action.attempt m) := by
  intro done db
  refine awp_attempt (awp_fail_mono (hm done db) ?_)
  intro f done' t' ht db'
  exact ht

theorem yields_pure {a : α} {Q : α → Prop} (h : Q a) : Yields P (pure a : Action Stmt E W α) Q :=
  fun _ _ => awp_pure ⟨rfl, h⟩

theorem yields_throw {f : Failure E W} {Q : α → Prop} : Yields P (throw f : Action Stmt E W α) Q := fun _ _ => awp_throw rfl

theorem Kept.yields {m : Action Stmt E W α} (hm : Kept P m) : Yields P m fun _ => True :=
  fun done db => awp_mono (fun _ _ _ _ ht => ⟨ht, trivial⟩) (hm done db)

theorem yields_bind {Q : β → Prop} {R : α → Prop}
    (hm : Yields P m Q) (hf : ∀ b, Q b → Yields P (f b) R) : Yields P (m >>= f) R := by
  intro done db
  refine awp_bind (awp_mono ?_ (hm done db))
  rintro b done' t' db' ⟨rfl, hb⟩
  exact hf b hb done' db'

theorem kept_bind_yields {Q : β → Prop} (hm : Yields P m Q)
    (hf : ∀ b, Q b → Kept P (f b)) : Kept P (m >>= f) := by
  intro done db
  refine awp_bind (awp_mono ?_ (hm done db))
  rintro b done' t' db' ⟨rfl, hb⟩
  exact hf b hb done' db'

theorem yields_ite {c : Prop} [Decidable c] {m m' : Action Stmt E W α} {Q : α → Prop} (h : c → Yields P m Q)
    (h' : ¬ c → Yields P m' Q) : Yields P (if c then m else m') Q :=
  fun done db => awp_ite (fun hc => h hc done db) fun hc => h' hc done db

/-- An attempt that ends well ends as the action does. -/
theorem yields_attempt {m : Action Stmt E W α} {Q : α → Prop} (hm : Yields P m Q) :
    Yields P (Action.attempt m) fun r => ∀ a, r = .ok a → Q a := by
  intro done db
  refine awp_attempt (awp_fail_mono (awp_mono ?_ (hm done db)) ?_)
  · rintro a done' t' db' ⟨ht, ha⟩
    refine ⟨ht, fun a' heq => ?_⟩
    cases heq
    exact ha
  · intro f done' t' ht db'
    exact ⟨ht, fun a heq => nomatch heq⟩

theorem mild_pure {a : α} : Mild P (pure a : Action Stmt E W α) := fun _ tx _ htx => awp_pure ⟨tx, rfl, htx⟩

theorem mild_throw {f : Failure E W} : Mild P (throw f : Action Stmt E W α) := fun _ _ _ _ => awp_throw trivial

theorem mild_bind (hm : Mild P m) (hf : ∀ b, Mild P (f b)) :
    Mild P (m >>= f) := by
  intro done tx db htx
  refine awp_bind (awp_mono ?_ (hm done tx db htx))
  rintro b done' t' db' ⟨tx', rfl, htx'⟩
  exact hf b done' tx' db' htx'

theorem mild_ite {c : Prop} [Decidable c] {m m' : Action Stmt E W α} (h : c → Mild P m) (h' : ¬ c → Mild P m') :
    Mild P (if c then m else m') :=
  fun done tx db htx => awp_ite (fun hc => h hc done tx db htx) fun hc => h' hc done tx db htx

end rules

/-! ### Statements and transactions -/

theorem applyAll_mild {ws : List Write} (h : ∀ w ∈ ws, ∀ db, I db → I (S.apply db w)) {db : Db} (hI : I db) :
    I (S.applyAll db ws) := by
  induction ws generalizing db with
  | nil => exact hI
  | cons w ws ih => exact ih (fun w' hw' => h w' (.tail _ hw')) (h w (List.mem_cons_self ..) db hI)

theorem kept_query {s : Stmt α} (h : ∀ held db o, I db → S.eval s held db = .ok o → I (S.applyAll db o.writes)) :
    Kept (keeping S touches same env I) (Action.query s : Action Stmt E W α) := by
  intro done db
  refine awp_query_auto (fun e => rfl) fun db₁ hrely => ⟨trivial, fun _ held o ho => ?_⟩
  exact ⟨() :: done, .commit (h held db₁ o hrely.inv ho), rfl⟩

/-- A statement that writes nothing. -/
theorem kept_read {s : Stmt α} (h : ∀ held db o, S.eval s held db = .ok o → o.writes = []) :
    Kept (keeping S touches same env I) (Action.query s : Action Stmt E W α) :=
  kept_query fun held db o hI ho => by rw [h held db o ho]; exact hI

theorem mild_query {s : Stmt α}
    (h : ∀ held db o, S.eval s held db = .ok o → ∀ w ∈ o.writes, ∀ db, I db → I (S.apply db w)) :
    Mild (keeping S touches same env I) (Action.query s : Action Stmt E W α) := by
  intro done tx db htx
  refine awp_query (fun e => trivial) fun db₁ hrely => ⟨trivial, fun _ held o ho => ?_⟩
  refine ⟨tx.add o, rfl, fun w hw => ?_⟩
  rcases List.mem_append.1 hw with hw | hw
  · exact htx w hw
  · exact h held _ o ho w hw

/-- A block that commits at its end. -/
theorem kept_inTx {m : Action Stmt E W α} (hm : Mild (keeping S touches same env I) m) :
    Kept (keeping S touches same env I) (Action.inTx (m >>= fun a => Action.commit >>= fun _ => pure a)) := by
  intro done db
  refine awp_inTx (fun e => rfl) fun db₁ hrely => ?_
  refine awp_bind (awp_mono ?_ (awp_fail_mono (hm done Tx.empty db₁ fun w hw => (List.not_mem_nil hw).elim) ?_))
  · rintro a done' t' db' ⟨tx, rfl, htx⟩
    refine awp_bind (awp_commit (fun e => rfl) fun db₂ hrely' => ?_)
    exact ⟨() :: done', .commit (applyAll_mild htx hrely'.inv), fun e => rfl, awp_pure fun db'' _ => rfl⟩
  · intro f done' t' _
    rfl

end kept

/-! ## Runs -/

variable {progs : Script (TxOp Stmt E) α → Prop} {db₀ : Db}
  {past : List (Pool (TxOp Stmt E) (Store.Sys Db Resource Write) α)}
  {p : Pool (TxOp Stmt E) (Store.Sys Db Resource Write) α}

/-- However the sessions are interleaved, the invariant is kept. -/
theorem keeping_run (hframed : Framed S touches same env) (henv : ∀ db db', I db → env db db' → I db')
    (hprogs : ∀ m, progs m → ∀ db, (keeping S touches same env I).wp m (Final fun _ _ _ => True) [] none db)
    (h₀ : I db₀) (h : Run (Pool.Next (S.machine env) progs) (.idle (.quiet db₀)) past p) : I p.shared.db := by
  have hrun : Run (Pool.Next (keeping S touches same env I).machine progs) (.idle (.quiet db₀)) past p := by
    refine h.mono fun p p' hstep => ?_
    cases hstep with
    | start hi hm => exact .start hi hm
    | @exec i β o k r s' hi hs =>
      refine .exec hi ⟨?_, hs⟩
      cases o with
      | _ => trivial
    | finish hi => exact .finish hi
    | crash hi => exact .crash hi
    | env hs => exact .env hs
  obtain ⟨log, cur, hgood, -⟩ := sound (keeping_lawful hframed henv) (fun m hm db _ => hprogs m hm db)
    (fun _ _ _ _ _ _ _ => trivial) h₀ hrun
  exact hgood.inv

/-- A program that keeps an invariant among others keeps it alone. -/
theorem wp_solo (hsame : ∀ r db, same r db db) {m : Script (TxOp Stmt E) α}
    {Q : α → List Unit → Option (Tx Resource Write) → Db → Prop} {done : List Unit} {t : Option (Tx Resource Write)} {db : Db}
    (h : (keeping S touches same env I).wp m Q done t db) (hI : I db) :
    (∃ done', Q (m.run S.solo (t, db)).1 done' (m.run S.solo (t, db)).2.1 (m.run S.solo (t, db)).2.2) ∧
      I (m.run S.solo (t, db)).2.2 := by
  induction m generalizing done t db with
  | ret a => exact ⟨⟨done, h⟩, hI⟩
  | call o k ih =>
    have hrely : (keeping S touches same env I).Rely t db db := ⟨hI, trivial, fun _ _ r _ => hsame r db⟩
    have hallows : (keeping S touches same env I).allows o := by
      cases o with
      | _ => trivial
    obtain ⟨done', hmoves, hrest⟩ := (h db hrely).2 hallows _ _ _ _ (S.own_solo o t db)
    have hI' : I (S.solo o (t, db)).2.2 := by
      rcases hmoves with ⟨-, hleft⟩ | ⟨l, -, hguar⟩
      · rw [hleft]
        exact hI
      · exact hguar
    exact ih _ hrest hI'

theorem Kept.runSolo {W : Type} {m : Action Stmt E W α} (hm : Kept (keeping S touches same env I) m)
    (hsame : ∀ r db, same r db db) {db : Db} (hI : I db) :
    (S.runSolo m.run db).2.1 = none ∧ I (S.runSolo m.run db).2.2 := by
  have hwp := hm [] db
  rw [awp] at hwp
  obtain ⟨⟨done', hnone⟩, hkept⟩ := wp_solo hsame hwp hI
  refine ⟨?_, hkept⟩
  split at hnone
  · exact hnone
  · exact hnone

/-- A program that makes one request, whatever comes of it. -/
theorem Kept.program {W : Type} {P : Protocol S Unit} {m : Action Stmt E W β} {f : Except (Failure E W) β → α}
    (hm : Kept P m) (db : Db) : P.wp (m.run.bind fun r => .ret (f r)) (Final fun _ _ _ => True) [] none db := by
  refine (wp_bind _ _).2 (awp_run (hm [] db) ?_ ?_)
  · rintro a done' t' db' rfl
    exact ⟨rfl, trivial⟩
  · rintro e done' t' db' rfl
    exact ⟨rfl, trivial⟩

end Protocol

/-! ## Statements on their own -/

namespace Store

variable (S : Store Stmt Db Resource Write E) (C : {β : Type} → Stmt β → Db → Bool) (env : Db → Db → Prop)

/-- The execution of a statement on its own, where the condition holds. -/
def autoExec (_ : Nat) : {β : Type} → TxOp Stmt E β → Db → Option (β × Db)
  | _, .stmt s, db =>
    if C s db then
      match S.eval s (fun _ => false) db with
      | .ok o => some (.ok o.value, S.applyAll db o.writes)
      | .error e => some (.error e, db)
    else none
  | _, _, _ => none

def autocommit : Machine (TxOp Stmt E) Db where
  step i _ o db r db' := S.autoExec C i o db = some (r, db')
  abort _ db := db
  env := env

/-- The pool with transactions, of which none is open. -/
def quietPool (p : Pool (TxOp Stmt E) Db α) : Pool (TxOp Stmt E) (Sys Db Resource Write) α := ⟨.quiet p.shared, p.session⟩

variable {S C env} {progs : Script (TxOp Stmt E) α → Prop} {p p' : Pool (TxOp Stmt E) Db α}

theorem quiet_update (db : Db) (i : Nat) :
    (⟨db, Function.update (fun _ => none) i none⟩ : Sys Db Resource Write) = .quiet db := by
  have hnone : Function.update (fun _ : Nat => (none : Option (Tx Resource Write))) i none = fun _ => none :=
    Function.update_eq_self i _
  rw [hnone]
  rfl

theorem next_autocommit (h : Pool.Next (S.autocommit C env) progs p p') :
    Pool.Next ((S.machine env).given (S.passes C)) progs (quietPool p) (quietPool p') := by
  cases h with
  | start hi hm => exact .start hi hm
  | @exec i β o k r db' hi hs =>
    refine .exec (p := quietPool p) hi ⟨?_, fun _ => false, none, db', fun l => ?_, ?_, (quiet_update db' i).symm⟩
    · cases o with
      | stmt s =>
        simp only [autocommit, autoExec] at hs
        split at hs
        · assumption
        · cases hs
      | _ => trivial
    · refine ⟨fun hfalse => (Bool.false_ne_true hfalse).elim, ?_⟩
      rintro ⟨j, tx, -, htx, -⟩
      cases htx
    · cases o with
      | stmt s =>
        simp only [autocommit, autoExec] at hs
        split at hs
        · split at hs
          · rename_i out heval
            cases hs
            exact .inr ⟨out, heval, fun _ _ => rfl, rfl, rfl, rfl⟩
          · cases hs
            exact .inl ⟨rfl, rfl, _, rfl⟩
        · cases hs
      | _ => cases hs
  | finish hi => exact .finish (p := quietPool p) hi
  | @crash i m hi =>
    have hcrash : Pool.Next ((S.machine env).given (S.passes C)) progs (quietPool p)
        ((quietPool p).move i none ⟨p.shared, Function.update (fun _ => none) i none⟩) := .crash hi
    rw [quiet_update] at hcrash
    exact hcrash
  | env hs => exact .env (p := quietPool p) ⟨rfl, hs⟩

theorem run_autocommit {db : Db} {past : List (Pool (TxOp Stmt E) Db α)}
    (h : Run (Pool.Next (S.autocommit C env) progs) (.idle db) past p) :
    ∃ past', Run (Pool.Next ((S.machine env).given (S.passes C)) progs) (.idle (.quiet db)) past' (quietPool p) := by
  induction h with
  | start => exact ⟨[], .start⟩
  | next _ hstep ih =>
    obtain ⟨past', hrun⟩ := ih
    exact ⟨_, hrun.next (next_autocommit hstep)⟩

/-- A schedule of sessions that open no transactions is played in the store. -/
theorem play_autocommit {turns : List (Turn (TxOp Stmt E) Db α)} {db : Db}
    (hlegal : turns.Forall (Turn.Legal (S.autocommit C env) progs)) (check : Db → Bool)
    (h : (Pool.play (S.autoExec C) turns (.idle db)).any fun p => check p.shared) :
    ∃ past p, Run (Pool.Next ((S.machine env).given (S.passes C)) progs) (.idle (.quiet db)) past p ∧
      check p.shared.db := by
  obtain ⟨past, p, hrun, hcheck⟩ := Pool.play_any (fun _ _ _ _ _ _ hexec => hexec) hlegal h
  obtain ⟨past', hrun'⟩ := run_autocommit hrun
  exact ⟨past', _, hrun', hcheck⟩

end Store

end Ploykit.Lib

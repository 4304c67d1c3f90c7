import Ploykit.Lib.Invariant

/-!
# Recorded writes

`Store.recorded` has beside the database the writes that have been made, the latest
first. Nothing reads them, so that every run of the store is one of the recorded store.
The writes of a transaction are recorded together, when it commits.
-/

namespace Ploykit.Lib

variable {Stmt : Type → Type} {Db Resource Write E α β : Type}

namespace Store

variable (S : Store Stmt Db Resource Write E) (env : Db → Db → Prop)

def recorded : Store Stmt (Db × List Write) Resource Write E where
  eval s held x := S.eval s held x.1
  apply x w := (S.apply x.1 w, w :: x.2)

/-- What happens besides the sessions is not recorded. -/
def unrecorded (x y : Db × List Write) : Prop := env x.1 y.1 ∧ y.2 = x.2

variable {S env}

theorem recorded_applyAll (x : Db × List Write) (ws : List Write) :
    S.recorded.applyAll x ws = (S.applyAll x.1 ws, ws.reverse ++ x.2) := by
  induction ws generalizing x with
  | nil => rfl
  | cons w ws ih =>
    rw [applyAll_cons, ih]
    simp [recorded]

theorem recorded_view (t : Option (Tx Resource Write)) (x : Db × List Write) : (S.recorded.view t x).1 = S.view t x.1 := by
  cases t with
  | none => rfl
  | some tx => exact congrArg Prod.fst (recorded_applyAll x tx.writes)

theorem framed_recorded {touches : Write → List Resource} {same : Resource → Db → Db → Prop}
    (h : Protocol.Framed S touches same env) :
    Protocol.Framed S.recorded touches (fun r x y => same r x.1 y.1) (unrecorded env) where
  refl r x := h.refl r x.1
  trans r x y z := h.trans r x.1 y.1 z.1
  frame r w x := h.frame r w x.1
  covered s held x := h.covered s held x.1
  env r x y he := h.env r x.1 y.1 he.1

/-! ## Runs -/

section runs

variable {held : Resource → Bool} {o : TxOp Stmt E β} {t t' : Option (Tx Resource Write)} {x : Db × List Write} {db' : Db}
  {r : β} {progs : Script (TxOp Stmt E) α → Prop} {C : {β : Type} → Stmt β → Db → Bool}

/-- A call of the store can be recorded. -/
theorem own_recorded (h : S.own held o t x.1 r t' db') : ∃ log, S.recorded.own held o t x r t' (db', log) := by
  cases o with
  | begin =>
    obtain ⟨rfl, hrest⟩ := h
    exact ⟨x.2, rfl, hrest⟩
  | rollback =>
    obtain ⟨ht, rfl⟩ := h
    exact ⟨x.2, ht, rfl⟩
  | commit =>
    obtain ⟨ht, rfl | ⟨rfl, herr⟩⟩ := h
    · exact ⟨(S.recorded.view t x).2, ht, .inl (Prod.ext (recorded_view t x).symm rfl)⟩
    · exact ⟨x.2, ht, .inr ⟨rfl, herr⟩⟩
  | stmt s =>
    rcases h with ⟨ht, rfl, herr⟩ | ⟨o, heval, hfree, hr, hrest⟩
    · exact ⟨x.2, .inl ⟨ht, rfl, herr⟩⟩
    have heval' : S.recorded.eval s held (S.recorded.view t x) = .ok o :=
      (congrArg (S.eval s held) (recorded_view t x)).trans heval
    cases t with
    | none =>
      obtain ⟨ht, rfl⟩ := hrest
      exact ⟨_, .inr ⟨o, heval', hfree, hr, ht, (recorded_applyAll x o.writes).symm⟩⟩
    | some tx =>
      obtain ⟨ht, rfl⟩ := hrest
      exact ⟨x.2, .inr ⟨o, heval', hfree, hr, ht, rfl⟩⟩

/-- The pools agree but for the record. -/
structure Recording (p : Pool (TxOp Stmt E) (Sys Db Resource Write) α)
    (q : Pool (TxOp Stmt E) (Sys (Db × List Write) Resource Write) α) : Prop where
  db : q.shared.db.1 = p.shared.db
  tx : q.shared.tx = p.shared.tx
  session : q.session = p.session

variable {p p' : Pool (TxOp Stmt E) (Sys Db Resource Write) α} {q : Pool (TxOp Stmt E) (Sys (Db × List Write) Resource Write) α}

theorem next_recorded (h : Pool.Next ((S.machine env).given (S.passes C)) progs p p') (hq : Recording p q) :
    ∃ q', Recording p' q' ∧
      Pool.Next ((S.recorded.machine (unrecorded env)).given (S.recorded.passes fun s x => C s x.1)) progs q q' := by
  obtain ⟨⟨⟨db, log⟩, tx⟩, session⟩ := q
  obtain ⟨⟨db₀, tx₀⟩, session₀⟩ := p
  obtain ⟨hdb, htx, hsession⟩ := hq
  cases hdb
  cases htx
  cases hsession
  cases h with
  | start hi hm => exact ⟨_, ⟨rfl, rfl, rfl⟩, .start hi hm⟩
  | @exec i β o k r s' hi hs =>
    obtain ⟨hpass, held, t', db', hheld, hown, rfl⟩ := hs
    obtain ⟨log', hown'⟩ := own_recorded (x := (db, log)) hown
    refine ⟨_, ⟨rfl, rfl, rfl⟩, .exec hi ⟨?_, held, t', (db', log'), hheld, hown', rfl⟩⟩
    cases o with
    | stmt s =>
      have hview : C s (S.recorded.view (tx i) (db, log)).1 := by
        rw [recorded_view]
        exact hpass
      exact hview
    | _ => trivial
  | finish hi => exact ⟨_, ⟨rfl, rfl, rfl⟩, .finish hi⟩
  | crash hi => exact ⟨_, ⟨rfl, rfl, rfl⟩, .crash hi⟩
  | @env s' hs =>
    obtain ⟨htx, henv⟩ := hs
    exact ⟨⟨⟨(s'.db, log), s'.tx⟩, session⟩, ⟨rfl, rfl, rfl⟩, .env ⟨htx, henv, rfl⟩⟩

/-- Every run of the store can be recorded. -/
theorem run_recorded {db : Db} {past : List (Pool (TxOp Stmt E) (Sys Db Resource Write) α)}
    (h : Run (Pool.Next ((S.machine env).given (S.passes C)) progs) (.idle (.quiet db)) past p) : ∃ past' q,
      Recording p q ∧ Run (Pool.Next ((S.recorded.machine (unrecorded env)).given (S.recorded.passes fun s x => C s x.1)) progs)
        (.idle (.quiet (db, []))) past' q := by
  induction h with
  | start => exact ⟨[], _, ⟨rfl, rfl, rfl⟩, .start⟩
  | next _ hstep ih =>
    obtain ⟨past', q, hq, hrun⟩ := ih
    obtain ⟨q', hq', hnext⟩ := next_recorded hstep hq
    exact ⟨_, q', hq', hrun.next hnext⟩

end runs

end Store

end Ploykit.Lib

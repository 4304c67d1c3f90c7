import Mathlib.Logic.Function.Basic
import Ploykit.Lib.Script

/-!
# Interleavings

A `Pool` holds a shared state and one script for each busy session. A step of
the pool executes one call of one session, starts a script in an idle session,
retires a finished script, cuts a session off in the middle of its script, or
lets the environment change the shared state. What a call does to the shared
state is given by a `Machine`.

`Run` is the reflexive-transitive closure of any step relation that also keeps
the list of the states gone through, for properties that speak about the past.
-/

namespace Ploykit.Lib

universe u

/-! ## Runs -/

section run

variable {S : Type*}

/-- A run from `s₀` that has gone through the states `past`, the latest first,
and is now in the last argument. -/
inductive Run (R : S → S → Prop) (s₀ : S) : List S → S → Prop
  | start : Run R s₀ [] s₀
  | next {past : List S} {s s' : S} (h : Run R s₀ past s) (step : R s s') :
      Run R s₀ (s :: past) s'

variable {R : S → S → Prop} {s₀ s s' : S} {past : List S}

/-- An inductive invariant holds in the last state of a run. -/
theorem Run.invariant {I : S → Prop} (h : Run R s₀ past s) (h₀ : I s₀)
    (hstep : ∀ s s', I s → R s s' → I s') : I s := by
  induction h with
  | start => exact h₀
  | next _ step ih => exact hstep _ _ ih step

/-- A relation that is reflexive, transitive and contains every step relates
the two ends of a run. -/
theorem Run.relates {T : S → S → Prop} (h : Run R s₀ past s) (hrefl : ∀ s, T s s)
    (htrans : ∀ a b c, T a b → T b c → T a c) (hstep : ∀ s s', R s s' → T s s') : T s₀ s := by
  induction h with
  | start => exact hrefl _
  | next _ step ih => exact htrans _ _ _ ih (hstep _ _ step)

theorem Run.trans {past₁ past₂ : List S} (h₁ : Run R s₀ past₁ s) (h₂ : Run R s past₂ s') :
    Run R s₀ (past₂ ++ past₁) s' := by
  induction h₂ with
  | start => exact h₁
  | next _ step ih => exact .next ih step

theorem Run.mono {Q : S → S → Prop} (h : Run R s₀ past s) (hRQ : ∀ s s', R s s' → Q s s') :
    Run Q s₀ past s := by
  induction h with
  | start => exact .start
  | next _ step ih => exact .next ih (hRQ _ _ step)

end run

/-! ## Pools -/

variable {Op : Type → Type u} {σ α : Type}

/-- What the calls of the sessions do to the shared state. -/
structure Machine (Op : Type → Type u) (σ : Type) where
  /-- `step i o s r s'`: session `i` may execute `o` in `s`, get `r` and leave `s'`. -/
  step : Nat → {β : Type} → Op β → σ → β → σ → Prop
  /-- What is undone when a session is cut off. -/
  abort : Nat → σ → σ
  /-- What the environment may do between two calls. -/
  env : σ → σ → Prop

/-- The machine that only executes calls satisfying `P`. -/
def Machine.restrict (M : Machine Op σ) (P : {β : Type} → Op β → Prop) : Machine Op σ where
  step i _ o s r s' := P o ∧ M.step i o s r s'
  abort := M.abort
  env := M.env

/-- A shared state and the scripts that the busy sessions still have to run. -/
structure Pool (Op : Type → Type u) (σ α : Type) where
  shared : σ
  session : Nat → Option (Script Op α)

namespace Pool

/-- No session is busy. -/
def idle (s : σ) : Pool Op σ α := ⟨s, fun _ => none⟩

/-- The pool after session `i` has moved on to `m` and left the shared state `s`. -/
def move (p : Pool Op σ α) (i : Nat) (m : Option (Script Op α)) (s : σ) : Pool Op σ α :=
  ⟨s, Function.update p.session i m⟩

@[simp] theorem idle_shared (s : σ) : (idle s : Pool Op σ α).shared = s := rfl
@[simp] theorem move_shared (p : Pool Op σ α) (i : Nat) (m : Option (Script Op α)) (s : σ) :
    (p.move i m s).shared = s := rfl
@[simp] theorem move_session_self (p : Pool Op σ α) (i : Nat) (m : Option (Script Op α)) (s : σ) :
    (p.move i m s).session i = m := Function.update_self ..
theorem move_session_ne (p : Pool Op σ α) {i j : Nat} (m : Option (Script Op α)) (s : σ)
    (h : j ≠ i) : (p.move i m s).session j = p.session j := Function.update_of_ne h ..

/-- One step of the pool, over the programs that sessions may start. -/
inductive Next (M : Machine Op σ) (progs : Script Op α → Prop) : Pool Op σ α → Pool Op σ α → Prop
  | start {p : Pool Op σ α} {i : Nat} {m : Script Op α} (hi : p.session i = none)
      (hm : progs m) : Next M progs p (p.move i (some m) p.shared)
  | exec {p : Pool Op σ α} {i : Nat} {β : Type} {o : Op β} {k : β → Script Op α} {r : β} {s' : σ}
      (hi : p.session i = some (.call o k)) (hs : M.step i o p.shared r s') :
      Next M progs p (p.move i (some (k r)) s')
  | finish {p : Pool Op σ α} {i : Nat} {a : α} (hi : p.session i = some (.ret a)) :
      Next M progs p (p.move i none p.shared)
  | crash {p : Pool Op σ α} {i : Nat} {m : Script Op α} (hi : p.session i = some m) :
      Next M progs p (p.move i none (M.abort i p.shared))
  | env {p : Pool Op σ α} {s' : σ} (hs : M.env p.shared s') :
      Next M progs p ⟨s', p.session⟩

/-- No session is cut off: one that becomes idle has come to its end. -/
def Whole (p p' : Pool Op σ α) : Prop := ∀ i m, p.session i = some m → p'.session i = none → ∃ a, m = .ret a

/-- One step in which no session is cut off. -/
def NextWhole (M : Machine Op σ) (progs : Script Op α → Prop) (p p' : Pool Op σ α) : Prop := Next M progs p p' ∧ Whole p p'

variable {M : Machine Op σ} {progs : Script Op α → Prop} {p p' : Pool Op σ α}

/-- A session that goes on is not cut off. -/
theorem whole_move {i : Nat} {m : Script Op α} {s : σ} : Whole p (p.move i (some m) s) := by
  intro j m' hj hidle
  by_cases hji : j = i
  · rw [hji, move_session_self] at hidle
    cases hidle
  · rw [move_session_ne p _ _ hji, hj] at hidle
    cases hidle

theorem whole_finish {i : Nat} {a : α} {s : σ} (hi : p.session i = some (.ret a)) : Whole p (p.move i none s) := by
  intro j m' hj hidle
  by_cases hji : j = i
  · rw [hji, hi] at hj
    exact ⟨a, (Option.some.inj hj).symm⟩
  · rw [move_session_ne p _ _ hji, hj] at hidle
    cases hidle

/-! ## Sessions that run alone -/

/-- A session can go along every path of its script while the others wait. -/
theorem runs_path {i : Nat} {m m' : Script Op α} {s s' : σ}
    (h : Script.Path (M.step i) m s m' s') (hp : p.shared = s) (hi : p.session i = some m) :
    ∃ past, Run (Next M progs) p past (p.move i (some m') s') := by
  induction h generalizing p with
  | refl m s =>
    have hmove : p.move i (some m) s = p := by
      cases p
      cases hp
      rw [move, ← hi, Function.update_eq_self]
    exact ⟨[], by rw [hmove]; exact .start⟩
  | @step δ o k s s₁ s' r m' hstep _ ih =>
    subst hp
    have hexec : Next M progs p (p.move i (some (k r)) s₁) := .exec hi hstep
    obtain ⟨past, hrun⟩ := @ih (p.move i (some (k r)) s₁) rfl (move_session_self ..)
    refine ⟨_, (Run.start.next hexec).trans (?_ : Run _ _ past _)⟩
    simpa [move, Function.update_idem] using hrun

/-- A program can be served from the idle pool along every path of its script. -/
theorem serves {m : Script Op α} {a : α} {s s' : σ} (hm : progs m)
    (h : Script.Path (M.step 0) m s (.ret a) s') :
    ∃ past, Run (Next M progs) (idle s) past (idle s') := by
  have hstart : Next M progs (idle s) ((idle s).move 0 (some m) s) := .start rfl hm
  obtain ⟨past, hrun⟩ := @runs_path _ _ _ M progs ((idle s).move 0 (some m) s) _ _ _ _ _ h rfl (move_session_self ..)
  have hfinish : Next M progs (((idle s).move 0 (some m) s).move 0 (some (.ret a)) s') (idle s') := by
    have hnext := @Next.finish Op σ α M progs
      (((idle s).move 0 (some m) s).move 0 (some (.ret a)) s') 0 a (move_session_self ..)
    have hidle : (((idle s).move 0 (some m) s).move 0 (some (.ret a)) s').move 0 none s' = idle s' := by
      simp [move, idle, Function.update_idem]
    rwa [move_shared, hidle] at hnext
  exact ⟨_, ((Run.start.next hstart).trans hrun).next hfinish⟩

/-! ## Pools whose scripts keep to some calls -/

section calls

variable {P : {β : Type} → Op β → Prop}

/-- The scripts still to run only issue calls satisfying `P`. -/
def Calls (P : {β : Type} → Op β → Prop) (p : Pool Op σ α) : Prop :=
  ∀ i m, p.session i = some m → m.Calls P

theorem calls_idle (s : σ) : (idle s : Pool Op σ α).Calls P := by
  intro i m h
  cases h

theorem Calls.move {i : Nat} {m : Option (Script Op α)} {s : σ} (hp : p.Calls P)
    (hm : ∀ m', m = some m' → m'.Calls P) : (p.move i m s).Calls P := by
  intro j m' hj
  by_cases hji : j = i
  · subst hji
    exact hm m' (by simpa using hj)
  · exact hp j m' (by rwa [move_session_ne p m s hji] at hj)

theorem Next.calls (h : Next M progs p p') (hprogs : ∀ m, progs m → m.Calls P)
    (hp : p.Calls P) : p'.Calls P := by
  cases h with
  | start _ hm => exact hp.move fun m' e => by cases e; exact hprogs _ hm
  | exec hi _ => exact hp.move fun m' e => by cases e; exact (hp _ _ hi).2 _
  | finish _ => exact hp.move fun m' e => by cases e
  | crash _ => exact hp.move fun m' e => by cases e
  | env _ => exact hp

end calls

end Pool

end Ploykit.Lib

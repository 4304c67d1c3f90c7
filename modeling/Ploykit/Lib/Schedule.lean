import Mathlib.Data.List.Basic
import Ploykit.Lib.Monitor

/-!
# Schedules

A schedule says which session is to move next, and how far. Where calls can be
executed, so can schedules, and what they lead to is reached by a run.
-/

namespace Ploykit.Lib

universe u

variable {Op : Type → Type u} {σ α : Type}

/-- What happens next in a pool. -/
inductive Turn (Op : Type → Type u) (σ α : Type) where
  | start (i : Nat) (m : Script Op α)
  /-- Session `i` executes its next `n` calls. -/
  | calls (i n : Nat)
  | finish (i : Nat)
  | env (f : σ → σ)

/-- The turn may be taken in the pools of `M` over the programs. -/
def Turn.Legal (M : Machine Op σ) (progs : Script Op α → Prop) : Turn Op σ α → Prop
  | .start _ m => progs m
  | .env f => ∀ s, M.env s (f s)
  | _ => True

namespace Pool

variable (exec : Nat → {β : Type} → Op β → σ → Option (β × σ))

def execute (i : Nat) : Nat → Pool Op σ α → Option (Pool Op σ α)
  | 0, p => some p
  | n + 1, p =>
    match p.session i with
    | some (.call o k) =>
      match exec i o p.shared with
      | some (r, s') => execute i n (p.move i (some (k r)) s')
      | none => none
    | _ => none

/-- The pool after the turns, if all of them can be taken. -/
def play : List (Turn Op σ α) → Pool Op σ α → Option (Pool Op σ α)
  | [], p => some p
  | .start i m :: turns, p =>
    match p.session i with
    | none => play turns (p.move i (some m) p.shared)
    | some _ => none
  | .calls i n :: turns, p =>
    match execute exec i n p with
    | some p' => play turns p'
    | none => none
  | .finish i :: turns, p =>
    match p.session i with
    | some (.ret _) => play turns (p.move i none p.shared)
    | _ => none
  | .env f :: turns, p => play turns ⟨f p.shared, p.session⟩

variable {exec} {M : Machine Op σ} {progs : Script Op α → Prop} {p p' : Pool Op σ α}

theorem execute_run (hexec : ∀ i {β : Type} (o : Op β) s r s', exec i o s = some (r, s') → M.step i o s r s')
    {i n : Nat} (h : execute exec i n p = some p') : ∃ past, Run (NextWhole M progs) p past p' := by
  induction n generalizing p with
  | zero =>
    cases h
    exact ⟨[], .start⟩
  | succ n ih =>
    unfold execute at h
    split at h
    · rename_i o k hsession
      split at h
      · rename_i r s' hcall
        obtain ⟨past, hrun⟩ := ih h
        exact ⟨_, (Run.start.next ⟨.exec hsession (hexec _ _ _ _ _ hcall), whole_move⟩).trans hrun⟩
      · cases h
    · cases h

/-- What a schedule leads to is reached by a run in which no session is cut off. -/
theorem play_whole (hexec : ∀ i {β : Type} (o : Op β) s r s', exec i o s = some (r, s') → M.step i o s r s')
    {turns : List (Turn Op σ α)} (hlegal : turns.Forall (Turn.Legal M progs)) (h : play exec turns p = some p') :
    ∃ past, Run (NextWhole M progs) p past p' := by
  induction turns generalizing p with
  | nil =>
    cases h
    exact ⟨[], .start⟩
  | cons t turns ih =>
    obtain ⟨ht, hturns⟩ := (List.forall_cons _ t turns).1 hlegal
    have ih := fun q (hq : play exec turns q = some p') => ih (p := q) hturns hq
    cases t with
    | start i m =>
      simp only [play] at h
      split at h
      · rename_i hidle
        obtain ⟨past, hrun⟩ := ih _ h
        exact ⟨_, (Run.start.next ⟨.start hidle ht, whole_move⟩).trans hrun⟩
      · cases h
    | calls i n =>
      simp only [play] at h
      split at h
      · rename_i q hq
        obtain ⟨past₁, hrun₁⟩ := @execute_run _ _ _ _ M progs _ _ hexec _ _ hq
        obtain ⟨past₂, hrun₂⟩ := ih q h
        exact ⟨_, hrun₁.trans hrun₂⟩
      · cases h
    | finish i =>
      simp only [play] at h
      split at h
      · rename_i a hdone
        obtain ⟨past, hrun⟩ := ih _ h
        exact ⟨_, (Run.start.next ⟨.finish hdone, whole_finish hdone⟩).trans hrun⟩
      · cases h
    | env f =>
      obtain ⟨past, hrun⟩ := ih _ h
      have hwhole : Whole p ⟨f p.shared, p.session⟩ := fun i m hi hidle => by cases hi.symm.trans hidle
      exact ⟨_, (Run.start.next ⟨.env (ht _), hwhole⟩).trans hrun⟩

/-- A run to a pool that passes the check, by computation, in which no session is cut off. -/
theorem play_any_whole (hexec : ∀ i {β : Type} (o : Op β) s r s', exec i o s = some (r, s') → M.step i o s r s')
    {turns : List (Turn Op σ α)} (hlegal : turns.Forall (Turn.Legal M progs)) {check : Pool Op σ α → Bool}
    (h : (play exec turns p).any check) : ∃ past p', Run (NextWhole M progs) p past p' ∧ check p' := by
  cases hplay : play exec turns p with
  | none => rw [hplay] at h; cases h
  | some p' =>
    obtain ⟨past, hrun⟩ := play_whole hexec hlegal hplay
    rw [hplay] at h
    exact ⟨past, p', hrun, h⟩

/-- A run to a pool that passes the check, by computation. -/
theorem play_any (hexec : ∀ i {β : Type} (o : Op β) s r s', exec i o s = some (r, s') → M.step i o s r s')
    {turns : List (Turn Op σ α)} (hlegal : turns.Forall (Turn.Legal M progs)) {check : Pool Op σ α → Bool}
    (h : (play exec turns p).any check) : ∃ past p', Run (Next M progs) p past p' ∧ check p' := by
  obtain ⟨past, p', hrun, hcheck⟩ := play_any_whole hexec hlegal h
  exact ⟨past, p', hrun.mono fun _ _ => And.left, hcheck⟩

/-- A run goes on with a schedule. -/
theorem play_on (turns : List (Turn Op σ α)) (check : Pool Op σ α → Bool) {p₀ : Pool Op σ α}
    {past : List (Pool Op σ α)} (hrun : Run (Next M progs) p₀ past p)
    (hexec : ∀ i {β : Type} (o : Op β) s r s', exec i o s = some (r, s') → M.step i o s r s')
    (hlegal : turns.Forall (Turn.Legal M progs)) (h : (play exec turns p).any check) :
    ∃ past p', Run (Next M progs) p₀ past p' ∧ check p' := by
  obtain ⟨past', p', hrun', hcheck⟩ := play_any hexec hlegal h
  exact ⟨_, p', hrun.trans hrun', hcheck⟩

/-- What session `i` ends with, if it has come to its end. -/
def reply (p : Pool Op σ α) (i : Nat) : Option α :=
  match p.session i with
  | some (.ret a) => some a
  | _ => none

theorem session_of_reply {i : Nat} {a : α} (h : p.reply i = some a) : p.session i = some (.ret a) := by
  unfold reply at h
  split at h
  · rename_i b hb
    rw [hb, Option.some.inj h]
  · cases h

end Pool

/-! ## Executions of one script -/

/-- Execute a script to its end, if its calls can be executed. -/
def Script.complete (exec : {β : Type} → Op β → σ → Option (β × σ)) : Script Op α → σ → Option (α × σ)
  | .ret a, s => some (a, s)
  | .call o k, s =>
    match exec o s with
    | some (r, s') => (k r).complete exec s'
    | none => none

theorem Script.complete_path {exec : {β : Type} → Op β → σ → Option (β × σ)}
    {Step : {β : Type} → Op β → σ → β → σ → Prop}
    (hexec : ∀ {β : Type} (o : Op β) s r s', exec o s = some (r, s') → Step o s r s') {m : Script Op α} {s s' : σ} {a : α}
    (h : m.complete exec s = some (a, s')) : Script.Path Step m s (.ret a) s' := by
  induction m generalizing s with
  | ret a =>
    cases h
    exact .refl _ _
  | call o k ih =>
    simp only [complete] at h
    split at h
    · rename_i r s₁ hcall
      exact .step (hexec _ _ _ _ hcall) (ih r h)
    · cases h

/-! ## Guarded and watched executions -/

section guarded

variable {exec : Nat → {β : Type} → Op β → σ → Option (β × σ)} {guard : Nat → {β : Type} → Op β → σ → Bool}
  {M : Machine Op σ} {C : Nat → {β : Type} → Op β → σ → Prop}

/-- The execution of the calls that the guard lets pass. -/
def guarded (guard : Nat → {β : Type} → Op β → σ → Bool) (exec : Nat → {β : Type} → Op β → σ → Option (β × σ))
    (i : Nat) {β : Type} (o : Op β) (s : σ) : Option (β × σ) := if guard i o s then exec i o s else none

theorem guarded_step (hguard : ∀ i {β : Type} (o : Op β) s, guard i o s → C i o s)
    (hexec : ∀ i {β : Type} (o : Op β) s r s', exec i o s = some (r, s') → M.step i o s r s') (i : Nat) {β : Type}
    (o : Op β) (s : σ) (r : β) (s' : σ) (h : guarded guard exec i o s = some (r, s')) :
    (M.given C).step i o s r s' := by
  unfold guarded at h
  split at h
  · rename_i hpass
    exact ⟨hguard _ _ _ hpass, hexec _ _ _ _ _ h⟩
  · cases h

variable {Γ : Type} {W : Monitor Op Γ}

/-- The execution of calls beside the monitors. -/
def Monitor.execute (W : Monitor Op Γ) (exec : Nat → {β : Type} → Op β → σ → Option (β × σ)) (i : Nat) {β : Type}
    (o : Op β) (x : σ × (Nat → Γ)) : Option (β × (σ × (Nat → Γ))) :=
  match exec i o x.1 with
  | some (r, s') => some (r, s', Function.update x.2 i (W.next (x.2 i) o r))
  | none => none

theorem Monitor.execute_step (hexec : ∀ i {β : Type} (o : Op β) s r s', exec i o s = some (r, s') → M.step i o s r s')
    (i : Nat) {β : Type} (o : Op β) (x : σ × (Nat → Γ)) (r : β) (x' : σ × (Nat → Γ))
    (h : W.execute exec i o x = some (r, x')) : (M.watched W).step i o x r x' := by
  unfold Monitor.execute at h
  split at h
  · rename_i r' s' hcall
    cases h
    exact ⟨hexec _ _ _ _ _ hcall, rfl⟩
  · cases h

end guarded

end Ploykit.Lib

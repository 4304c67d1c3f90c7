import Mathlib.Logic.Basic

/-!
# Scripts

A `Script Op α` is a program that issues calls of the signature `Op` and ends
with a value of type `α`. The calls are first-order data, so a script can be
executed (`Script.run`), executed with calls that fail (`Script.Path`), stopped
between two calls (a path that does not end in `ret`), or interleaved with other
scripts (`Ploykit.Lib.Pool`).

Nothing here knows what the calls do. A client instantiates `Op` with its calls
and gives them a meaning, as a function (`run`) or as a relation (`Path`).
-/

namespace Ploykit.Lib

universe u

/-- A program over the calls `Op`: it has ended with a value, or it issues a
call and goes on with the call's answer. -/
inductive Script (Op : Type → Type u) (α : Type) : Type (max 1 u)
  | ret (a : α) : Script Op α
  | call {β : Type} (op : Op β) (k : β → Script Op α) : Script Op α

namespace Script

variable {Op : Type → Type u} {α β γ σ : Type}

/-! ## The monad -/

/-- Run `f` on the value `s` ends with. -/
def bind : Script Op α → (α → Script Op β) → Script Op β
  | ret a, f => f a
  | call op k, f => call op fun r => (k r).bind f

/-- The script that issues one call and returns its answer. -/
def op (o : Op α) : Script Op α := call o ret

instance : Monad (Script Op) where
  pure := ret
  bind := bind

@[simp] theorem pure_eq (a : α) : (pure a : Script Op α) = ret a := rfl
@[simp] theorem bind_eq (s : Script Op α) (f : α → Script Op β) : s >>= f = s.bind f := rfl
@[simp] theorem ret_bind (a : α) (f : α → Script Op β) : (ret a).bind f = f a := rfl
@[simp] theorem call_bind (o : Op γ) (k : γ → Script Op α) (f : α → Script Op β) :
    (call o k).bind f = call o fun r => (k r).bind f := rfl
@[simp] theorem op_bind (o : Op α) (f : α → Script Op β) : (op o).bind f = call o f := rfl

@[simp] theorem bind_ret (s : Script Op α) : s.bind ret = s := by
  induction s with
  | ret a => rfl
  | call o k ih => simp only [call_bind, ih]

theorem bind_assoc (s : Script Op α) (f : α → Script Op β) (g : β → Script Op γ) :
    (s.bind f).bind g = s.bind fun a => (f a).bind g := by
  induction s with
  | ret a => rfl
  | call o k ih => simp only [call_bind, ih]

instance : LawfulMonad (Script Op) :=
  LawfulMonad.mk' (Script Op) bind_ret (fun _ _ => rfl) bind_assoc

/-! ## Uninterrupted runs -/

/-- Execute a script whose calls are answered by `exec`. -/
def run (exec : {β : Type} → Op β → σ → β × σ) : Script Op α → σ → α × σ
  | ret a, s => (a, s)
  | call o k, s => (k (exec o s).1).run exec (exec o s).2

/-- Every call issued in the execution passes the check. -/
def runAll (exec : {β : Type} → Op β → σ → β × σ) (check : {β : Type} → Op β → Bool) :
    Script Op α → σ → Bool
  | ret _, _ => true
  | call o k, s => check o && (k (exec o s).1).runAll exec check (exec o s).2

/-- The script and the state after `n` calls. -/
def advance (exec : {β : Type} → Op β → σ → β × σ) : Nat → Script Op α → σ → Script Op α × σ
  | n + 1, call o k, s => advance exec n (k (exec o s).1) (exec o s).2
  | _, m, s => (m, s)

section run

variable (exec : {β : Type} → Op β → σ → β × σ)

@[simp] theorem run_ret (a : α) (s : σ) : (ret a : Script Op α).run exec s = (a, s) := rfl

@[simp] theorem run_call (o : Op γ) (k : γ → Script Op α) (s : σ) :
    (call o k).run exec s = (k (exec o s).1).run exec (exec o s).2 := rfl

theorem run_bind (m : Script Op α) (f : α → Script Op β) (s : σ) :
    (m.bind f).run exec s = (f (m.run exec s).1).run exec (m.run exec s).2 := by
  induction m generalizing s with
  | ret a => rfl
  | call o k ih => simp only [call_bind, run_call, ih]

end run

/-! ## The calls of a script -/

/-- Every call the script can issue satisfies `P`, whatever it is answered. -/
def Calls (P : {β : Type} → Op β → Prop) : Script Op α → Prop
  | ret _ => True
  | call o k => P o ∧ ∀ r, (k r).Calls P

section calls

variable {P Q : {β : Type} → Op β → Prop}

@[simp] theorem calls_ret (a : α) : (ret a : Script Op α).Calls P := trivial

@[simp] theorem calls_call (o : Op γ) (k : γ → Script Op α) :
    (call o k).Calls P ↔ P o ∧ ∀ r, (k r).Calls P := Iff.rfl

theorem Calls.bind {s : Script Op α} {f : α → Script Op β} (hs : s.Calls P)
    (hf : ∀ a, (f a).Calls P) : (s.bind f).Calls P := by
  induction s with
  | ret a => exact hf a
  | call o k ih => exact ⟨hs.1, fun r => ih r (hs.2 r)⟩

theorem Calls.seq {o : Op α} {f : α → Script Op β} (ho : P o) (hf : ∀ a, (f a).Calls P) :
    (op o >>= f).Calls P := ⟨ho, hf⟩

@[simp] theorem calls_op (o : Op α) : (op o).Calls P ↔ P o := by simp [op]

theorem Calls.ite {c : Prop} [Decidable c] {s t : Script Op α} (hs : c → s.Calls P)
    (ht : ¬ c → t.Calls P) : (if c then s else t).Calls P := by
  by_cases h : c
  · rw [if_pos h]
    exact hs h
  · rw [if_neg h]
    exact ht h

theorem Calls.mono {s : Script Op α} (h : ∀ {β : Type} (o : Op β), P o → Q o)
    (hs : s.Calls P) : s.Calls Q := by
  induction s with
  | ret a => trivial
  | call o k ih => exact ⟨h o hs.1, fun r => ih r (hs.2 r)⟩

end calls

/-! ## Runs with failures and crashes

The meaning of a call is now a relation `Step o s r s'`: from `s` the call may
be answered `r` and leave `s'`. A path stops after any number of calls. It is a
finished run when the script it leaves is a `ret`, and a crash otherwise. -/

/-- The script and state that a partial execution leaves. -/
inductive Path (Step : {β : Type} → Op β → σ → β → σ → Prop) :
    Script Op α → σ → Script Op α → σ → Prop
  | refl (m : Script Op α) (s : σ) : Path @Step m s m s
  | step {δ : Type} {o : Op δ} {k : δ → Script Op α} {s s₁ s' : σ} {r : δ} {m : Script Op α}
      (h : Step o s r s₁) (tail : Path @Step (k r) s₁ m s') : Path @Step (call o k) s m s'

/-- Every finished run of the script from `s` ends in `Q`. -/
def wp (Step : {β : Type} → Op β → σ → β → σ → Prop) :
    Script Op α → (α → σ → Prop) → σ → Prop
  | ret a, Q, s => Q a s
  | call o k, Q, s => ∀ r s', Step o s r s' → wp Step (k r) Q s'

/-- Wherever an execution of the script from `s` stops the state satisfies `I`, and where the script ends `Q` holds. -/
def through (Step : {β : Type} → Op β → σ → β → σ → Prop) (I : σ → Prop) :
    Script Op α → (α → σ → Prop) → σ → Prop
  | ret a, Q, s => I s ∧ Q a s
  | call o k, Q, s => I s ∧ ∀ r s', Step o s r s' → through Step I (k r) Q s'

section path

variable {Step : {β : Type} → Op β → σ → β → σ → Prop}

@[simp] theorem wp_ret (a : α) (Q : α → σ → Prop) (s : σ) :
    wp Step (ret a : Script Op α) Q s ↔ Q a s := Iff.rfl

@[simp] theorem wp_call (o : Op γ) (k : γ → Script Op α) (Q : α → σ → Prop) (s : σ) :
    wp Step (call o k) Q s ↔ ∀ r s', Step o s r s' → wp Step (k r) Q s' := Iff.rfl

theorem wp_bind (m : Script Op α) (f : α → Script Op β) (Q : β → σ → Prop) (s : σ) :
    wp Step (m.bind f) Q s ↔ wp Step m (fun a s' => wp Step (f a) Q s') s := by
  induction m generalizing s with
  | ret a => rfl
  | call o k ih => simp only [call_bind, wp_call, ih]

theorem wp_mono {m : Script Op α} {Q R : α → σ → Prop} {s : σ}
    (h : ∀ a s', Q a s' → R a s') (hm : wp Step m Q s) : wp Step m R s := by
  induction m generalizing s with
  | ret a => exact h a s hm
  | call o k ih => exact fun r s' hr => ih r (hm r s' hr)

/-- `wp` speaks about all finished runs. -/
theorem wp_path {m : Script Op α} {Q : α → σ → Prop} {s s' : σ} {a : α}
    (hm : wp Step m Q s) (hp : Path Step m s (ret a) s') : Q a s' := by
  generalize hn : (ret a : Script Op α) = n at hp
  induction hp with
  | refl m s => subst hn; exact hm
  | step h _ ih => exact ih (hm _ _ h) hn

theorem Path.trans {m₁ m₂ m₃ : Script Op α} {s₁ s₂ s₃ : σ}
    (h : Path Step m₁ s₁ m₂ s₂) (h' : Path Step m₂ s₂ m₃ s₃) : Path Step m₁ s₁ m₃ s₃ := by
  induction h with
  | refl => exact h'
  | step h _ ih => exact .step h (ih h')

theorem through_bind {I : σ → Prop} {m : Script Op α} {f : α → Script Op β} {Q : β → σ → Prop} {s : σ}
    (hm : m.through Step I (fun a s' => (f a).through Step I Q s') s) : (m.bind f).through Step I Q s := by
  induction m generalizing s with
  | ret a => exact hm.2
  | call o k ih => exact ⟨hm.1, fun r s' hr => ih r (hm.2 r s' hr)⟩

theorem through_mono {I J : σ → Prop} {m : Script Op α} {Q R : α → σ → Prop} {s : σ} (hIJ : ∀ s, I s → J s)
    (hQR : ∀ a s, I s → Q a s → R a s) (hm : m.through Step I Q s) : m.through Step J R s := by
  induction m generalizing s with
  | ret a => exact ⟨hIJ s hm.1, hQR a s hm.1 hm.2⟩
  | call o k ih => exact ⟨hIJ s hm.1, fun r s' hr => ih r (hm.2 r s' hr)⟩

theorem through_path {I : σ → Prop} {m n : Script Op α} {Q : α → σ → Prop} {s s' : σ}
    (hm : m.through Step I Q s) (hp : Path Step m s n s') : n.through Step I Q s' := by
  induction hp with
  | refl => exact hm
  | step h _ ih => exact ih (hm.2 _ _ h)

theorem through_here {I : σ → Prop} {m : Script Op α} {Q : α → σ → Prop} {s : σ} (hm : m.through Step I Q s) : I s := by
  cases m with
  | ret a => exact hm.1
  | call o k => exact hm.1

/-- A path is over before the first call, or goes on from what the call leaves. -/
theorem Path.call_cases {δ : Type} {o : Op δ} {k : δ → Script Op α} {m : Script Op α} {s s' : σ}
    (h : Path Step (call o k) s m s') :
    (m = call o k ∧ s' = s) ∨ ∃ r s₁, Step o s r s₁ ∧ Path Step (k r) s₁ m s' := by
  cases h with
  | refl => exact .inl ⟨rfl, rfl⟩
  | step h tail => exact .inr ⟨_, _, h, tail⟩

theorem Path.ret_eq {a : α} {m : Script Op α} {s s' : σ} (h : Path Step (ret a) s m s') :
    m = ret a ∧ s' = s := by
  cases h
  exact ⟨rfl, rfl⟩

/-- A finished path has executed the first call. -/
theorem Path.call_ret {δ : Type} {o : Op δ} {k : δ → Script Op α} {a : α} {s s' : σ}
    (h : Path Step (call o k) s (ret a) s') :
    ∃ r s₁, Step o s r s₁ ∧ Path Step (k r) s₁ (ret a) s' := by
  cases h with
  | step h tail => exact ⟨_, _, h, tail⟩

/-- A path of a sequence stops in its first part or goes through it. -/
theorem Path.bind_cases {m : Script Op α} {f : α → Script Op β} {n : Script Op β} {s s' : σ}
    (h : Path Step (m.bind f) s n s') :
    (∃ m', n = m'.bind f ∧ Path Step m s m' s') ∨
      ∃ a s₁, Path Step m s (ret a) s₁ ∧ Path Step (f a) s₁ n s' := by
  induction m generalizing s with
  | ret a => exact .inr ⟨a, s, .refl _ _, h⟩
  | call o k ih =>
    rcases h.call_cases with ⟨rfl, rfl⟩ | ⟨r, s₁, hs, htail⟩
    · exact .inl ⟨call o k, rfl, .refl _ _⟩
    · rcases ih r htail with ⟨m', rfl, hm⟩ | ⟨a, s₂, hm, hf⟩
      · exact .inl ⟨m', rfl, .step hs hm⟩
      · exact .inr ⟨a, s₂, .step hs hm, hf⟩

/-- A finished path of a sequence has finished its first part. -/
theorem Path.bind_ret {m : Script Op α} {f : α → Script Op β} {b : β} {s s' : σ}
    (h : Path Step (m.bind f) s (ret b) s') :
    ∃ a s₁, Path Step m s (ret a) s₁ ∧ Path Step (f a) s₁ (ret b) s' := by
  rcases h.bind_cases with ⟨m', hm', hm⟩ | h
  · cases m' with
    | ret a => exact ⟨a, s', hm, hm' ▸ .refl _ _⟩
    | call o k => cases hm'
  · exact h

/-- The script issues next a call that satisfies `P`. -/
def Next (P : {β : Type} → Op β → Prop) : Script Op α → Prop
  | ret _ => False
  | call o _ => P o

/-- The script as it goes on from the answer to its next call. -/
def answerNext (answer : {β : Type} → Op β → β) : Script Op α → Script Op α
  | ret a => ret a
  | call o k => k (answer o)

theorem path_answerNext {answer : {β : Type} → Op β → β} {m : Script Op α} {s : σ}
    (h : m.Next fun o => Step o s (answer o) s) : Path Step m s (m.answerNext answer) s := by
  cases m with
  | ret a => exact h.elim
  | call o k => exact .step h (.refl _ _)

/-- A path to a call of one kind goes through the calls of other kinds before it. -/
theorem Path.call_next {P : {β : Type} → Op β → Prop} {δ : Type} {o : Op δ} {k : δ → Script Op α}
    {m : Script Op α} {s s' : σ} (h : Path Step (call o k) s m s') (hm : m.Next P) (ho : ¬ P o) :
    ∃ r s₁, Step o s r s₁ ∧ Path Step (k r) s₁ m s' := by
  rcases h.call_cases with ⟨rfl, -⟩ | hstep
  · exact absurd hm ho
  · exact hstep

/-- A path to a call that the first part of a sequence does not issue. -/
theorem Path.bind_next {P : {β : Type} → Op β → Prop} {m : Script Op α} {f : α → Script Op β}
    {n : Script Op β} {s s' : σ} (h : Path Step (m.bind f) s n s') (hn : n.Next P)
    (hm : m.Calls fun o => ¬ P o) :
    ∃ a s₁, Path Step m s (ret a) s₁ ∧ Path Step (f a) s₁ n s' := by
  induction m generalizing s with
  | ret a => exact ⟨a, s, .refl _ _, h⟩
  | call o k ih =>
    obtain ⟨r, s₁, hs, htail⟩ := h.call_next hn hm.1
    obtain ⟨a, s₂, hk, hf⟩ := ih r htail (hm.2 r)
    exact ⟨a, s₂, .step hs hk, hf⟩

theorem Path.not_next {P : {β : Type} → Op β → Prop} {m n : Script Op α} {s s' : σ}
    (h : Path Step m s n s') (hm : m.Calls fun o => ¬ P o) : ¬ n.Next P := by
  induction h with
  | refl m s =>
    cases m with
    | ret a => exact fun hn => hn
    | call o k => exact hm.1
  | step _ _ ih => exact ih (hm.2 _)

theorem Path.mono {Step' : {β : Type} → Op β → σ → β → σ → Prop}
    (hstep : ∀ {β : Type} (o : Op β) s r s', Step o s r s' → Step' o s r s')
    {m m' : Script Op α} {s s' : σ} (h : Path Step m s m' s') : Path Step' m s m' s' := by
  induction h with
  | refl m s => exact .refl m s
  | step h _ ih => exact .step (hstep _ _ _ _ h) ih

/-- A reflexive and transitive relation that holds across every call that the
script can issue holds across every path of the script. -/
theorem Path.relates {P : {β : Type} → Op β → Prop} {R : σ → σ → Prop} (hrefl : ∀ s, R s s)
    (htrans : ∀ s₁ s₂ s₃, R s₁ s₂ → R s₂ s₃ → R s₁ s₃)
    (hstep : ∀ {β : Type} (o : Op β) s r s', P o → Step o s r s' → R s s')
    {m m' : Script Op α} {s s' : σ} (hm : m.Calls P) (h : Path Step m s m' s') : R s s' := by
  induction h with
  | refl m s => exact hrefl s
  | step h _ ih => exact htrans _ _ _ (hstep _ _ _ _ hm.1 h) (ih (hm.2 _))

/-- An invariant of every call that the script can issue is one of every path. -/
theorem Path.invariant {P : {β : Type} → Op β → Prop} {I : σ → Prop}
    (hstep : ∀ {β : Type} (o : Op β) s r s', P o → Step o s r s' → I s → I s')
    {m m' : Script Op α} {s s' : σ} (hm : m.Calls P) (h : Path Step m s m' s') (hs : I s) : I s' :=
  h.relates (R := fun s s' => I s → I s') (fun _ => id) (fun _ _ _ h₁ h₂ h => h₂ (h₁ h)) hstep hm hs

/-- What every call keeps holds where the script ends. -/
theorem Calls.wp {P : {β : Type} → Op β → Prop} {I : σ → Prop}
    (hstep : ∀ {β : Type} (o : Op β) s r s', P o → Step o s r s' → I s → I s') {m : Script Op α} (hm : m.Calls P)
    {s : σ} (hs : I s) : wp Step m (fun _ s' => I s') s := by
  induction m generalizing s with
  | ret a => exact hs
  | call o k ih => exact fun r s' hr => ih r (hm.2 r) (hstep o s r s' hm.1 hr hs)

/-- An uninterrupted run is a path, when `Step` allows what `exec` does. -/
theorem run_path {exec : {β : Type} → Op β → σ → β × σ}
    (h : ∀ {β : Type} (o : Op β) s, Step o s (exec o s).1 (exec o s).2) (m : Script Op α) (s : σ) :
    Path Step m s (ret (m.run exec s).1) (m.run exec s).2 := by
  induction m generalizing s with
  | ret a => exact .refl _ _
  | call o k ih => exact .step (h o s) (ih _ _)

end path

/-! ## Calls that fail

A call that fails is answered by an error and leaves the state. A script fails
fast when it has nothing more to do with the state after that: it goes on with
what `stop` allows, or as if the call had not failed. -/

section failures

variable (exec : {β : Type} → Op β → σ → β × σ) (fails : {β : Type} → Op β → σ → β → Prop)

/-- The call is executed, or it fails. -/
def Faulty {β : Type} (o : Op β) (s : σ) (r : β) (s' : σ) : Prop :=
  exec o s = (r, s') ∨ fails o s r ∧ s' = s

/-- The call is executed. -/
def Sound {β : Type} (o : Op β) (s : σ) (r : β) (s' : σ) : Prop := exec o s = (r, s')

def FailsFast (stop : Script Op α → σ → Prop) : Script Op α → σ → Prop
  | ret _, _ => True
  | call o k, s =>
    (∀ r, fails o s r → stop (k r) s ∨ k r = k (exec o s).1 ∧ (exec o s).2 = s) ∧
      FailsFast stop (k (exec o s).1) (exec o s).2

variable {exec fails}

theorem Faulty.of_exec {β : Type} (o : Op β) (s : σ) :
    Faulty exec fails o s (exec o s).1 (exec o s).2 := .inl rfl

/-- A path of a script that fails fast is one without failures, up to where it
goes on with what `stop` allows. -/
theorem Path.failsFast {stop : Script Op α → σ → Prop} {m m' : Script Op α} {s s' : σ}
    (h : Path (Faulty exec fails) m s m' s') (hm : FailsFast exec fails stop m s) :
    Path (Sound exec) m s m' s' ∨ ∃ n s₁, stop n s₁ ∧ Path (Faulty exec fails) n s₁ m' s' := by
  induction h with
  | refl m s => exact .inl (.refl m s)
  | @step _ o _ s s₁ _ _ _ h tail ih =>
    rcases h with h | ⟨hfail, hs₁⟩
    · simp only [FailsFast, h] at hm
      rcases ih hm.2 with hp | hp
      · exact .inl (.step h hp)
      · exact .inr hp
    · subst hs₁
      rcases hm.1 _ hfail with hstop | ⟨hk, hs⟩
      · exact .inr ⟨_, _, hstop, tail⟩
      · have hrest := hm.2
        rw [← hk, hs] at hrest
        have hsound : Sound exec o s₁ (exec o s₁).1 s₁ := Prod.ext rfl hs
        rcases ih hrest with hp | hp
        · exact .inl (.step hsound (hk ▸ hp))
        · exact .inr hp

/-- A call that cannot fail, or that stops where it fails. -/
theorem FailsFast.call {stop : Script Op α → σ → Prop} {o : Op β} {k : β → Script Op α} {s s' : σ}
    {r : β} (hexec : exec o s = (r, s')) (hfails : ∀ r, fails o s r → stop (k r) s)
    (hk : FailsFast exec fails stop (k r) s') : FailsFast exec fails stop (.call o k) s := by
  simp only [FailsFast, hexec]
  exact ⟨fun r hr => .inl (hfails r hr), hk⟩

theorem FailsFast.ite {stop : Script Op α → σ → Prop} {c : Prop} [Decidable c] {m n : Script Op α}
    {s : σ} (hm : c → FailsFast exec fails stop m s) (hn : ¬ c → FailsFast exec fails stop n s) :
    FailsFast exec fails stop (if c then m else n) s := by
  split
  · exact hm ‹_›
  · exact hn ‹_›

theorem FailsFast.bind {stop : Script Op β → σ → Prop} {m : Script Op α} {f : α → Script Op β} {s : σ}
    (hm : FailsFast exec fails (fun n s => stop (n.bind f) s) m s)
    (hf : FailsFast exec fails stop (f (m.run exec s).1) (m.run exec s).2) :
    FailsFast exec fails stop (m.bind f) s := by
  induction m generalizing s with
  | ret a => exact hf
  | call o k ih =>
    refine ⟨fun r hr => ?_, ih _ hm.2 hf⟩
    rcases hm.1 r hr with hstop | ⟨hk, hs⟩
    · exact .inl hstop
    · exact .inr ⟨congrArg (·.bind f) hk, hs⟩

theorem path_advance (n : Nat) (m : Script Op α) (s : σ) :
    Path (Sound exec) m s (advance exec n m s).1 (advance exec n m s).2 := by
  induction n generalizing m s with
  | zero => exact .refl _ _
  | succ n ih =>
    cases m with
    | ret a => exact .refl _ _
    | call o k => exact .step rfl (ih _ _)

/-- A finished path without failures is the uninterrupted run. -/
theorem Path.eq_run {m : Script Op α} {a : α} {s s' : σ}
    (h : Path (Sound exec) m s (ret a) s') : m.run exec s = (a, s') := by
  generalize hn : (ret a : Script Op α) = n at h
  induction h with
  | refl m s => subst hn; rfl
  | step h _ ih =>
    rw [Sound] at h
    simp only [run_call, h, ih hn]

end failures

end Script

end Ploykit.Lib

import Ploykit.Lib.Pool

/-!
# Monitors

A monitor reads along with a script. It keeps a state of its own, which the calls
and their answers change, and says which calls are in order. A script that follows
the monitor does so whatever it is answered.

A watched machine carries the monitors of all sessions beside the shared state. They
restrict nothing: every run of the machine is watched by some run of the watched one.
-/

namespace Ploykit.Lib

universe u

variable {Op : Type → Type u} {Γ σ α β : Type}

structure Monitor (Op : Type → Type u) (Γ : Type) where
  /-- The call is in order. -/
  allows : {β : Type} → Γ → Op β → Prop
  /-- The state after a call and its answer. -/
  next : {β : Type} → Γ → Op β → β → Γ
  /-- Where a script may end, and another one start. -/
  rests : Γ → Prop
  init : Γ
  /-- The state that a script leaves that is cut off. -/
  abort : Γ → Γ
  init_rests : rests init
  abort_rests : ∀ γ, rests (abort γ)

/-! ## Scripts -/

namespace Script

/-- From `γ` the script issues only calls that are in order, and ends in `Q`. -/
def Follows (W : Monitor Op Γ) (Q : Γ → α → Prop) : Γ → Script Op α → Prop
  | γ, ret a => Q γ a
  | γ, call o k => W.allows γ o ∧ ∀ r, (k r).Follows W Q (W.next γ o r)

variable {W : Monitor Op Γ} {Q R : Γ → α → Prop} {γ : Γ}

theorem Follows.mono {m : Script Op α} (h : m.Follows W Q γ) (hQR : ∀ γ a, Q γ a → R γ a) : m.Follows W R γ := by
  induction m generalizing γ with
  | ret a => exact hQR _ _ h
  | call o k ih => exact ⟨h.1, fun r => ih r (h.2 r)⟩

theorem follows_bind {m : Script Op β} {f : β → Script Op α}
    (h : m.Follows W (fun γ b => (f b).Follows W Q γ) γ) : (m >>= f).Follows W Q γ := by
  induction m generalizing γ with
  | ret b => exact h
  | call o k ih => exact ⟨h.1, fun r => ih r (h.2 r)⟩

theorem follows_op {o : Op α} (ho : W.allows γ o) (h : ∀ r, Q (W.next γ o r) r) : (op o).Follows W Q γ := ⟨ho, h⟩

end Script

/-- The script may be started wherever the one before it may have ended. -/
def Monitor.Accepts (W : Monitor Op Γ) (m : Script Op α) : Prop :=
  ∀ γ, W.rests γ → m.Follows W (fun γ _ => W.rests γ) γ

/-! ## Watched pools -/

/-- The machine with the monitors of its sessions. -/
def Machine.watched (M : Machine Op σ) (W : Monitor Op Γ) : Machine Op (σ × (Nat → Γ)) where
  step i _ o s r s' := M.step i o s.1 r s'.1 ∧ s'.2 = Function.update s.2 i (W.next (s.2 i) o r)
  abort i s := (M.abort i s.1, Function.update s.2 i (W.abort (s.2 i)))
  env s s' := M.env s.1 s'.1 ∧ s'.2 = s.2

/-- The machine that executes a call only where `C` holds of it. -/
def Machine.given (M : Machine Op σ) (C : Nat → {β : Type} → Op β → σ → Prop) : Machine Op σ where
  step i _ o s r s' := C i o s ∧ M.step i o s r s'
  abort := M.abort
  env := M.env

namespace Pool

/-- A step under a condition is a step. -/
theorem Next.of_given {M : Machine Op σ} {C : Nat → {β : Type} → Op β → σ → Prop} {progs : Script Op α → Prop}
    {p p' : Pool Op σ α} (h : Next (M.given C) progs p p') : Next M progs p p' := by
  cases h with
  | start hi hm => exact .start hi hm
  | exec hi hs => exact .exec hi hs.2
  | finish hi => exact .finish hi
  | crash hi => exact .crash hi
  | env hs => exact .env hs

section mono

variable {M : Machine Op σ} {C C' : Nat → {β : Type} → Op β → σ → Prop} {P : {β : Type} → Op β → Prop}
  {progs : Script Op α → Prop} {p₀ p p' : Pool Op σ α} {past : List (Pool Op σ α)}

/-- A condition may be exchanged for one that it implies for the calls that there are. -/
theorem Next.given_mono (h : Next (M.given C) progs p p') (hp : p.Calls P)
    (hC : ∀ i {β : Type} (o : Op β) s, P o → C i o s → C' i o s) : Next (M.given C') progs p p' := by
  cases h with
  | start hi hm => exact .start hi hm
  | exec hi hs => exact .exec hi ⟨hC _ _ _ (hp _ _ hi).1 hs.1, hs.2⟩
  | finish hi => exact .finish hi
  | crash hi => exact .crash hi
  | env hs => exact .env hs

theorem run_given_mono (h : Run (Next (M.given C) progs) p₀ past p) (hprogs : ∀ m, progs m → m.Calls P) (hp : p₀.Calls P)
    (hC : ∀ i {β : Type} (o : Op β) s, P o → C i o s → C' i o s) : Run (Next (M.given C') progs) p₀ past p := by
  induction h with
  | start => exact .start
  | next hrun hstep ih =>
    have hcalls := hrun.invariant hp fun _ _ hp hstep => hstep.calls hprogs hp
    exact ih.next (hstep.given_mono hcalls hC)

end mono

/-- What is left to run of each session follows its monitor. -/
def Watched (W : Monitor Op Γ) (p : Pool Op (σ × (Nat → Γ)) α) : Prop :=
  ∀ i, match p.session i with
    | none => W.rests (p.shared.2 i)
    | some m => m.Follows W (fun γ _ => W.rests γ) (p.shared.2 i)

variable {M : Machine Op σ} {W : Monitor Op Γ} {progs : Script Op α → Prop}
  {p p' : Pool Op (σ × (Nat → Γ)) α}

theorem watched_idle (s : σ) : (idle (s, fun _ => W.init) : Pool Op (σ × (Nat → Γ)) α).Watched W :=
  fun _ => W.init_rests

theorem Watched.busy (h : p.Watched W) {i : Nat} {m : Script Op α} (hi : p.session i = some m) :
    m.Follows W (fun γ _ => W.rests γ) (p.shared.2 i) := by
  have hm := h i
  rw [hi] at hm
  exact hm

/-- A session that moves leaves the others as they are watched. -/
theorem Watched.move (h : p.Watched W) (i : Nat) {m : Option (Script Op α)} {s : σ} {γ : Γ}
    (hi : match m with
      | none => W.rests γ
      | some m => m.Follows W (fun γ _ => W.rests γ) γ) :
    (p.move i m (s, Function.update p.shared.2 i γ)).Watched W := by
  intro j
  by_cases hj : j = i
  · subst hj
    simpa using hi
  · have hother := h j
    rw [move_session_ne p m _ hj]
    simpa [Function.update_of_ne hj] using hother

theorem Next.watched (h : Next (M.watched W) progs p p') (hprogs : ∀ m, progs m → W.Accepts m)
    (hp : p.Watched W) : p'.Watched W := by
  cases h with
  | @start i m hi hm =>
    have hrest := hp i
    rw [hi] at hrest
    have hmove := hp.move i (s := p.shared.1) (m := some m) (hprogs m hm _ hrest)
    rwa [Function.update_eq_self] at hmove
  | @exec i β o k r s' hi hs =>
    have hfollows := (hp.busy hi).2 r
    have hmove := hp.move i (s := s'.1) (m := some (k r)) hfollows
    rwa [← hs.2] at hmove
  | @finish i a hi =>
    have hrest : W.rests (p.shared.2 i) := hp.busy hi
    have hmove := hp.move i (s := p.shared.1) (m := none) hrest
    rwa [Function.update_eq_self] at hmove
  | @crash i m hi => exact hp.move i (m := none) (W.abort_rests _)
  | @env s' hs =>
    intro i
    have hi := hp i
    rw [← hs.2] at hi
    exact hi

/-- What holds of the shared state at first, and is kept by each call that is in order, holds
in every state that a watched pool reaches. -/
theorem watched_invariant {C : Nat → {β : Type} → Op β → σ × (Nat → Γ) → Prop} {I : σ × (Nat → Γ) → Prop} {s : σ}
    {past : List (Pool Op (σ × (Nat → Γ)) α)}
    (h : Run (Next ((M.watched W).given C) progs) (idle (s, fun _ => W.init)) past p)
    (hprogs : ∀ m, progs m → W.Accepts m) (hinit : I (s, fun _ => W.init))
    (hexec : ∀ (i : Nat) (β : Type) (o : Op β) (r : β) (x x' : σ × (Nat → Γ)), I x → W.allows (x.2 i) o →
      C i o x → M.step i o x.1 r x'.1 → x'.2 = Function.update x.2 i (W.next (x.2 i) o r) → I x')
    (habort : ∀ i x, I x → I (M.abort i x.1, Function.update x.2 i (W.abort (x.2 i))))
    (henv : ∀ (x : σ × (Nat → Γ)) (s' : σ), I x → M.env x.1 s' → I (s', x.2)) : I p.shared := by
  have hboth : p.Watched W ∧ I p.shared := by
    refine h.invariant (I := fun p => p.Watched W ∧ I p.shared) ⟨watched_idle s, hinit⟩ ?_
    intro p p' hp hstep
    refine ⟨hstep.of_given.watched hprogs hp.1, ?_⟩
    cases hstep with
    | start _ _ => exact hp.2
    | @exec i β o k r s' hi hs => exact hexec i β o r _ _ hp.2 (hp.1.busy hi).1 hs.1 hs.2.1 hs.2.2
    | finish _ => exact hp.2
    | @crash i m hi => exact habort i _ hp.2
    | @env s' hs =>
      have hkept := henv _ _ hp.2 hs.1
      rwa [← hs.2] at hkept
  exact hboth.2

/-! ## What scripts answer -/

/-- What is left to run of each session ends in `Q`. -/
def Replies (W : Monitor Op Γ) (Q : Γ → α → Prop) (p : Pool Op (σ × (Nat → Γ)) α) : Prop :=
  ∀ i m, p.session i = some m → m.Follows W Q (p.shared.2 i)

section replies

variable {Q : Γ → α → Prop}

theorem Replies.move (h : p.Replies W Q) (i : Nat) {m : Option (Script Op α)} {s : σ} {γ : Γ}
    (hi : ∀ m', m = some m' → m'.Follows W Q γ) : (p.move i m (s, Function.update p.shared.2 i γ)).Replies W Q := by
  intro j m' hj
  by_cases hji : j = i
  · subst hji
    rw [move_session_self] at hj
    simpa using hi m' hj
  · rw [move_session_ne p m _ hji] at hj
    simpa [Function.update_of_ne hji] using h j m' hj

theorem Next.replies (h : Next (M.watched W) progs p p') (hprogs : ∀ m, progs m → ∀ γ, W.rests γ → m.Follows W Q γ)
    (hwatched : p.Watched W) (hp : p.Replies W Q) : p'.Replies W Q := by
  cases h with
  | @start i m hi hm =>
    have hrest := hwatched i
    rw [hi] at hrest
    have hmove := hp.move i (s := p.shared.1) (m := some m) fun m' e => Option.some.inj e ▸ hprogs m hm _ hrest
    rwa [Function.update_eq_self] at hmove
  | @exec i β o k r s' hi hs =>
    have hmove := hp.move i (s := s'.1) (m := some (k r)) fun m' e => Option.some.inj e ▸ (hp i _ hi).2 r
    rwa [← hs.2] at hmove
  | @finish i a hi =>
    have hmove := hp.move i (s := p.shared.1) (m := none) (γ := p.shared.2 i) fun m' e => by cases e
    rwa [Function.update_eq_self] at hmove
  | @crash i m hi => exact hp.move i (m := none) fun m' e => by cases e
  | @env s' hs =>
    intro i m hi
    rw [hs.2]
    exact hp i m hi

/-- Every session ends with an answer that its monitor vouches for. -/
theorem run_replies {C : Nat → {β : Type} → Op β → σ × (Nat → Γ) → Prop} {s : σ}
    {past : List (Pool Op (σ × (Nat → Γ)) α)}
    (h : Run (Next ((M.watched W).given C) progs) (idle (s, fun _ => W.init)) past p)
    (hprogs : ∀ m, progs m → W.Accepts m) (hreplies : ∀ m, progs m → ∀ γ, W.rests γ → m.Follows W Q γ) : p.Replies W Q := by
  have hboth : p.Watched W ∧ p.Replies W Q := by
    refine h.invariant (I := fun p => p.Watched W ∧ p.Replies W Q) ⟨watched_idle s, fun i m hi => by cases hi⟩ ?_
    intro p p' hp hstep
    exact ⟨hstep.of_given.watched hprogs hp.1, hstep.of_given.replies hreplies hp.1 hp.2⟩
  exact hboth.2

end replies

/-! ## Watching restricts nothing -/

/-- The pool without its monitors. -/
def plain (p : Pool Op (σ × (Nat → Γ)) α) : Pool Op σ α := ⟨p.shared.1, p.session⟩

/-- No condition on the calls. -/
def unconditional (_ : Nat) {β : Type} (_ : Op β) (_ : σ × (Nat → Γ)) : Prop := True

theorem Next.lift {q' : Pool Op σ α} (h : Next M progs p.plain q') :
    ∃ p', Next ((M.watched W).given unconditional) progs p p' ∧ p'.plain = q' := by
  cases h with
  | @start i m hi hm => exact ⟨p.move i (some m) p.shared, .start hi hm, rfl⟩
  | @exec i β o k r s' hi hs =>
    have hstep : (M.watched W).step i o p.shared r (s', Function.update p.shared.2 i (W.next (p.shared.2 i) o r)) :=
      ⟨hs, rfl⟩
    exact ⟨_, .exec hi ⟨trivial, hstep⟩, rfl⟩
  | @finish i a hi => exact ⟨p.move i none p.shared, .finish hi, rfl⟩
  | @crash i m hi => exact ⟨_, .crash hi, rfl⟩
  | @env s' hs => exact ⟨⟨(s', p.shared.2), p.session⟩, .env ⟨hs, rfl⟩, rfl⟩

/-- Every run is watched. -/
theorem run_watched {s : σ} {past : List (Pool Op σ α)} {q : Pool Op σ α} (h : Run (Next M progs) (idle s) past q) :
    ∃ past' p, Run (Next ((M.watched W).given unconditional) progs) (idle (s, fun _ => W.init)) past' p ∧
      p.plain = q := by
  induction h with
  | start => exact ⟨[], _, .start, rfl⟩
  | next _ hstep ih =>
    obtain ⟨past', p, hrun, rfl⟩ := ih
    obtain ⟨p', hnext, rfl⟩ := Next.lift (W := W) hstep
    exact ⟨_, p', hrun.next hnext, rfl⟩

end Pool

end Ploykit.Lib

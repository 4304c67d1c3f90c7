import Ploykit.Lib.Monitor

/-!
# Procedures

A procedure is a script that may fail. The rules say of each way to build one which calls
it makes in order, what it has learned where it returns, and what is so where it fails.
-/

namespace Ploykit.Lib

universe u

/-- What a function of a service does, until it returns or fails. -/
abbrev Proc (Op : Type → Type u) (E : Type) := ExceptT E (Script Op)

namespace Proc

variable {Op : Type → Type u} {E Γ α β : Type}

/-- A call that cannot fail. -/
def ask (o : Op α) : Proc Op E α := ExceptT.lift (Script.op o)

/-- `if err != nil { return err }` -/
def attempt (o : Op (Except E α)) : Proc Op E α := ExceptT.mk (Script.op o)

/-- `if err != nil { return wrap(err) }` -/
def perform {F : Type} (wrap : F → E) (o : Op (Except F α)) : Proc Op E α := ExceptT.mk (.call o fun r => .ret (r.mapError wrap))

/-- The same procedure, with its error wrapped. -/
def wrapping {F : Type} (wrap : F → E) (m : Proc Op F α) : Proc Op E α := ExceptT.mk (m.run.bind fun r => .ret (r.mapError wrap))

/-- `defer o()`: the call is made last, however the procedure ends. -/
def deferring (o : Op β) (m : Proc Op E α) : Proc Op E α := ExceptT.mk (m.run.bind fun r => .call o fun _ => .ret r)

/-- What holds where the procedure returns, and where it fails. -/
def Ends (Q : Γ → α → Prop) (F : Γ → E → Prop) (γ : Γ) : Except E α → Prop
  | .ok a => Q γ a
  | .error e => F γ e

/-- The procedure calls in order, and ends in `Q` where it returns, in `F` where it fails. -/
def Obeys (W : Monitor Op Γ) (F : Γ → E → Prop) (γ : Γ) (m : Proc Op E α) (Q : Γ → α → Prop) : Prop :=
  m.run.Follows W (Ends Q F) γ

variable {W : Monitor Op Γ} {F : Γ → E → Prop} {γ : Γ} {Q R : Γ → α → Prop}

theorem obeys_pure {a : α} (h : Q γ a) : Obeys W F γ (pure a) Q := h

theorem obeys_throw {e : E} (h : F γ e) : Obeys W F γ (throw e : Proc Op E α) Q := h

theorem Obeys.mono {m : Proc Op E α} (h : Obeys W F γ m Q) (hQR : ∀ γ a, Q γ a → R γ a) : Obeys W F γ m R := by
  refine Script.Follows.mono h fun γ r hr => ?_
  cases r with
  | ok a => exact hQR γ a hr
  | error e => exact hr

theorem obeys_bind {m : Proc Op E β} {f : β → Proc Op E α} (h : Obeys W F γ m fun γ b => Obeys W F γ (f b) Q) :
    Obeys W F γ (m >>= f) Q := by
  refine Script.follows_bind (Script.Follows.mono h ?_)
  intro γ r hr
  cases r with
  | ok b => exact hr
  | error e => exact hr

theorem obeys_ite {c : Prop} [Decidable c] {m m' : Proc Op E α} (h : c → Obeys W F γ m Q) (h' : ¬ c → Obeys W F γ m' Q) :
    Obeys W F γ (if c then m else m') Q := by
  split
  · exact h ‹_›
  · exact h' ‹_›

theorem obeys_ask {o : Op α} (ho : W.allows γ o) (h : ∀ r, Q (W.next γ o r) r) : Obeys W F γ (ask o) Q :=
  ⟨ho, fun r => h r⟩

theorem obeys_attempt {o : Op (Except E α)} (ho : W.allows γ o) (h : ∀ a, Q (W.next γ o (.ok a)) a)
    (hfails : ∀ e, F (W.next γ o (.error e)) e) : Obeys W F γ (attempt o) Q := by
  refine ⟨ho, fun r => ?_⟩
  cases r with
  | ok a => exact h a
  | error e => exact hfails e

theorem obeys_perform {F' : Type} {wrap : F' → E} {o : Op (Except F' α)} (ho : W.allows γ o)
    (h : ∀ a, Q (W.next γ o (.ok a)) a) (hfails : ∀ e, F (W.next γ o (.error e)) (wrap e)) : Obeys W F γ (perform wrap o) Q := by
  refine ⟨ho, fun r => ?_⟩
  cases r with
  | ok a => exact h a
  | error e => exact hfails e

theorem obeys_wrapping {F' : Type} {wrap : F' → E} {m : Proc Op F' α} (h : Obeys W (fun γ e => F γ (wrap e)) γ m Q) :
    Obeys W F γ (wrapping wrap m) Q := by
  refine Script.follows_bind (Script.Follows.mono h fun γ r hr => ?_)
  cases r with
  | ok a => exact hr
  | error e => exact hr

theorem obeys_deferring {o : Op β} {m : Proc Op E α}
    (h : Obeys W (fun γ e => W.allows γ o ∧ ∀ b, F (W.next γ o b) e) γ m fun γ a => W.allows γ o ∧ ∀ b, Q (W.next γ o b) a) :
    Obeys W F γ (deferring o m) Q := by
  refine Script.follows_bind (Script.Follows.mono h fun γ r hr => ?_)
  cases r with
  | ok a => exact hr
  | error e => exact hr

/-! ## Procedures that keep to some calls -/

section issues

variable {P : {β : Type} → Op β → Prop}

/-- The procedure only makes calls that satisfy `P`. -/
def Issues (P : {β : Type} → Op β → Prop) (m : Proc Op E α) : Prop := m.run.Calls P

theorem Issues.calls {m : Proc Op E α} (h : Issues P m) : m.run.Calls P := h

theorem issues_iff {m : Proc Op E α} : Issues P m ↔ m.run.Calls P := Iff.rfl

theorem issues_pure {a : α} : Issues P (pure a : Proc Op E α) := trivial

theorem issues_throw {e : E} : Issues P (throw e : Proc Op E α) := trivial

theorem issues_bind {m : Proc Op E β} {f : β → Proc Op E α} (h : Issues P m) (hf : ∀ b, Issues P (f b)) :
    Issues P (m >>= f) := by
  refine Script.Calls.bind h fun r => ?_
  cases r with
  | ok b => exact hf b
  | error e => trivial

theorem issues_ite {c : Prop} [Decidable c] {m m' : Proc Op E α} (h : c → Issues P m) (h' : ¬ c → Issues P m') :
    Issues P (if c then m else m') := by
  split
  · exact h ‹_›
  · exact h' ‹_›

theorem issues_ask {o : Op α} (ho : P o) : Issues P (ask o : Proc Op E α) := ⟨ho, fun _ => trivial⟩

theorem issues_attempt {o : Op (Except E α)} (ho : P o) : Issues P (attempt o : Proc Op E α) := by
  refine ⟨ho, fun r => ?_⟩
  cases r <;> trivial

-- else every step of a proof would run the procedure
attribute [irreducible] Issues

end issues

/-! ## Procedures that return -/

section returns

variable {σ : Type} {Step : {β : Type} → Op β → σ → β → σ → Prop} {s s' : σ} {Q R : α → σ → Prop}

/-- Where the procedure returns, whatever its calls were answered, `Q` holds. -/
def Returns (Step : {β : Type} → Op β → σ → β → σ → Prop) (m : Proc Op E α) (Q : α → σ → Prop) (s : σ) : Prop :=
  Script.wp Step m.run (fun r s' => ∀ a, r = .ok a → Q a s') s

theorem returns_pure {a : α} (h : Q a s) : Returns Step (pure a : Proc Op E α) Q s := fun b hb => by
  cases hb
  exact h

theorem returns_throw (e : E) : Returns Step (throw e : Proc Op E α) Q s := fun b hb => by cases hb

theorem Returns.mono {m : Proc Op E α} (h : Returns Step m Q s) (hQR : ∀ a s', Q a s' → R a s') : Returns Step m R s :=
  Script.wp_mono (fun _ s' hr a ha => hQR a s' (hr a ha)) h

theorem returns_bind {m : Proc Op E β} {f : β → Proc Op E α} (h : Returns Step m (fun b s' => Returns Step (f b) Q s') s) :
    Returns Step (m >>= f) Q s := by
  refine (Script.wp_bind m.run _ _ s).2 (Script.wp_mono (fun r s' hr => ?_) h)
  cases r with
  | ok b => exact hr b rfl
  | error e => exact fun b hb => by cases hb

theorem returns_ite {c : Prop} [Decidable c] {m m' : Proc Op E α} (h : c → Returns Step m Q s) (h' : ¬ c → Returns Step m' Q s) :
    Returns Step (if c then m else m') Q s := by
  split
  · exact h ‹_›
  · exact h' ‹_›

theorem returns_ask {o : Op α} (h : ∀ r s', Step o s r s' → Q r s') : Returns Step (ask o : Proc Op E α) Q s := by
  intro r s' hr b hb
  cases hb
  exact h r s' hr

theorem returns_attempt {o : Op (Except E α)} (h : ∀ a s', Step o s (.ok a) s' → Q a s') : Returns Step (attempt o) Q s := by
  intro r s' hr b hb
  cases hb
  exact h b s' hr

theorem returns_iff {m : Proc Op E α} : Returns Step m Q s ↔ Script.wp Step m.run (fun r s' => ∀ a, r = .ok a → Q a s') s := Iff.rfl

theorem Returns.path {m : Proc Op E α} {a : α} (h : Returns Step m Q s) (hpath : Script.Path Step m.run s (.ret (.ok a)) s') : Q a s' :=
  Script.wp_path h hpath a rfl

attribute [irreducible] Returns

end returns

/-! ## Procedures that are cut off -/

section passes

variable {σ : Type} {Step : {β : Type} → Op β → σ → β → σ → Prop} {I J : σ → Prop} {Q R : α → σ → Prop} {s s' : σ}

/-- Wherever the procedure stops the state satisfies `I`, and where it returns `Q` holds. -/
def Passes (Step : {β : Type} → Op β → σ → β → σ → Prop) (I : σ → Prop) (m : Proc Op E α) (Q : α → σ → Prop) (s : σ) : Prop :=
  Script.through Step I m.run (fun r s' => ∀ a, r = .ok a → Q a s') s

theorem passes_pure {a : α} (hs : I s) (h : Q a s) : Passes Step I (pure a : Proc Op E α) Q s :=
  ⟨hs, fun b hb => Except.ok.inj hb ▸ h⟩

theorem passes_throw {e : E} (hs : I s) : Passes Step I (throw e : Proc Op E α) Q s := ⟨hs, fun b hb => by cases hb⟩

theorem Passes.mono {m : Proc Op E α} (h : Passes Step I m Q s) (hIJ : ∀ s, I s → J s) (hQR : ∀ a s, Q a s → R a s) :
    Passes Step J m R s := Script.through_mono hIJ (fun _ s' _ hr a ha => hQR a s' (hr a ha)) h

theorem passes_bind {m : Proc Op E β} {f : β → Proc Op E α} (h : Passes Step I m (fun b s' => Passes Step I (f b) Q s') s) :
    Passes Step I (m >>= f) Q s := by
  refine Script.through_bind (Script.through_mono (fun _ hs => hs) (fun r s' hs hr => ?_) h)
  cases r with
  | ok b => exact hr b rfl
  | error e => exact ⟨hs, fun b hb => by cases hb⟩

theorem passes_ite {c : Prop} [Decidable c] {m m' : Proc Op E α} (h : c → Passes Step I m Q s) (h' : ¬ c → Passes Step I m' Q s) :
    Passes Step I (if c then m else m') Q s := by
  split
  · exact h ‹_›
  · exact h' ‹_›

theorem passes_ask {o : Op α} (hs : I s) (h : ∀ r s', Step o s r s' → I s' ∧ Q r s') : Passes Step I (ask o : Proc Op E α) Q s :=
  ⟨hs, fun r s' hr => ⟨(h r s' hr).1, fun b hb => Except.ok.inj hb ▸ (h r s' hr).2⟩⟩

theorem passes_attempt {o : Op (Except E α)} (hs : I s) (h : ∀ r s', Step o s r s' → I s' ∧ ∀ a, r = .ok a → Q a s') :
    Passes Step I (attempt o) Q s := ⟨hs, h⟩

theorem Passes.path {m : Proc Op E α} {n : Script Op (Except E α)} (h : Passes Step I m Q s) (hp : m.run.Path Step s n s') :
    I s' ∧ ∀ a, n = .ret (.ok a) → Q a s' := by
  have hn := Script.through_path h hp
  refine ⟨Script.through_here hn, fun a ha => ?_⟩
  subst ha
  exact hn.2 a rfl

theorem passes_iff {m : Proc Op E α} :
    Passes Step I m Q s ↔ Script.through Step I m.run (fun r s' => ∀ a, r = .ok a → Q a s') s := Iff.rfl

attribute [irreducible] Passes

end passes

end Proc

end Ploykit.Lib

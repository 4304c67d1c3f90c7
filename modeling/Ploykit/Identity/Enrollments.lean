import Ploykit.Identity.MFA
import Ploykit.Lib.Tickets

/-!
# Enrollments that are kept

Confirming, storing codes, using one and removing an enrollment are separate calls, with
what they rely on checked before. A confirmed enrollment is removed by disabling only, and a
request that fails has changed nothing, where what has been checked is still so and no call
fails after the first change.
-/

namespace Ploykit.Identity.MFA

open Lib Lib.Proc

/-- A confirmed enrollment and its unused codes are removed by disabling only, and a request that
fails has not confirmed, stored, used or removed any. -/
def Intact (history : List Event) : Prop := ∀ e ∈ history,
  match e with
  | .removed by_ => by_ = .disable
  | .failed _ changed => changed = false

/-- What the request has seen of the enrollment is still so: it is not confirmed, or confirmed by it. -/
def Query.Undisturbed (i : Nat) : {β : Type} → Query β → World → Prop
  | _, .upsertPendingMFA _, w => w.confirmed = none
  | _, .replaceBackupCodes _, w => ∃ n, (w.progress i).confirmed = some n ∧ w.confirmed = some n
  | _, _, _ => True

/-- The calls that confirm, store, use or remove. -/
def Query.changes : {β : Type} → Query β → Bool
  | _, .confirmMFA _ => true
  | _, .deleteMFA => true
  | _, .replaceBackupCodes _ => true
  | _, .consumeBackupCode _ _ => true
  | _, _ => false

/-- Nothing has come in between, no call fails after one that has changed something, and the answer
to that one is not lost. -/
def Undisturbed (i : Nat) : {β : Type} → Op β → World → Prop
  | _, .repo q, w => q.Undisturbed i w ∧ ((w.progress i).changed → w.fault = none ∧ ∃ a, (q.exec i w).1 = .ok a) ∧
    (q.changes → w.fault ≠ some .after)
  | _, _, _ => True

/-- No request has been made. -/
structure World.Fresh (w : World) : Prop where
  enrollment : w.enrollment = none
  codes : w.codes = []
  progress : w.progress = fun _ => {}
  history : w.history = []

/-! ## The order of calls -/

/-- What a session knows of its request: that it may have changed something, and that a call has failed since. -/
structure Seen where
  request : Request := .startEnrollment
  touched : Bool := false
  broken : Bool := false

def Query.touches : {β : Type} → Query β → β → Bool
  | _, .confirmMFA _, _ => true
  | _, .deleteMFA, _ => true
  | _, .replaceBackupCodes _, _ => true
  | _, .consumeBackupCode _ _, used => used
  | _, _, _ => false

namespace Seen

variable (s : Seen)

def next : {β : Type} → Op β → β → Seen
  | _, .begin r, _ => { request := r }
  | _, .repo q, .ok a => { s with touched := s.touched || q.touches a }
  | _, .repo _, .error _ => { s with broken := s.touched }
  | _, _, _ => s

/-- A request that has changed something fails only because a call has failed since. -/
def Allows : {β : Type} → Op β → Prop
  | _, .returned r ok => r = s.request ∧ (ok = false → s.touched → s.broken)
  | _, .repo .deleteMFA => s.broken = false ∧ s.request = .disable
  | _, .repo _ => s.broken = false
  | _, _ => True

end Seen

def monitor : Monitor Op Seen where
  allows s := s.Allows
  next s := s.next
  rests _ := True
  init := {}
  abort s := s
  init_rests := trivial
  abort_rests _ := trivial

section rules

variable {α : Type} {r : Request} {s : Seen} {Q : Seen → α → Prop}

def Fails (r : Request) (s : Seen) (_ : Err) : Prop := s.request = r ∧ (s.touched → s.broken)

abbrev Obeys (r : Request) (s : Seen) (m : Proc α) (Q : Seen → α → Prop) : Prop := Proc.Obeys monitor (Fails r) s m Q

/-- The request has begun, and changed nothing. -/
abbrev idle (r : Request) : Seen := { request := r }

/-- It may have changed something. -/
abbrev busy (r : Request) : Seen := { request := r, touched := true }

theorem fails_idle {e : Err} : Fails r (idle r) e := ⟨rfl, fun h => (nomatch h)⟩

theorem obeys_refuse {e : Webx.Error} : Obeys r (idle r) (refuse e) Q := @fails_idle r (.api e)

theorem obeys_repo {q : Query α} {touched : Bool} (hq : Seen.Allows { request := r, touched } (.repo q))
    (h : ∀ a, Q { request := r, touched := touched || q.touches a } a) : Obeys r { request := r, touched } (repo q) Q :=
  obeys_attempt hq h fun _ => ⟨rfl, fun h => h⟩

theorem obeys_limit : Obeys r (idle r) Service.limit fun s _ => s = idle r := by
  refine obeys_bind (obeys_attempt trivial (fun limited => ?_) fun _ => fails_idle)
  exact obeys_ite (fun _ => obeys_refuse) fun _ => obeys_pure rfl

theorem obeys_recordFailure : Obeys r (idle r) Service.recordFailure fun s _ => s = idle r := by
  refine obeys_bind (obeys_ask trivial fun now => obeys_bind (obeys_ask rfl fun answer => obeys_pure ?_))
  cases answer with
  | _ => rfl

variable {svc : Service}

-- the rules say all that is needed of it
attribute [local irreducible] Proc.Obeys

theorem obeys_unsealSecret {sealed_ : String} : Obeys r (idle r) (svc.unsealSecret sealed_) fun s _ => s = idle r :=
  obeys_ite (fun _ => obeys_attempt trivial (fun _ => rfl) fun _ => fails_idle) fun _ => obeys_throw fails_idle

theorem obeys_startEnrollment : Obeys r (idle r) svc.startEnrollment fun s _ => s.request = r := by
  refine obeys_bind (obeys_repo rfl fun enrollment => obeys_ite (fun _ => obeys_throw fails_idle) fun _ => ?_)
  refine obeys_ite (fun _ => obeys_throw fails_idle) fun _ => obeys_bind (obeys_ask trivial fun secret => ?_)
  refine obeys_bind (obeys_attempt trivial (fun sealed_ => ?_) fun _ => fails_idle)
  exact obeys_bind (obeys_repo rfl fun _ => obeys_pure rfl)

theorem obeys_replaceBackupCodes : Obeys r (busy r) svc.replaceBackupCodes fun s _ => s = busy r :=
  obeys_bind (obeys_ask trivial fun _ => obeys_bind (obeys_repo rfl fun _ => obeys_pure rfl))

theorem obeys_enable {sessionID code : String} : Obeys r (idle r) (svc.enable sessionID code) fun s _ => s.request = r := by
  refine obeys_bind (obeys_repo rfl fun enrollment => ?_)
  cases enrollment with
  | none => exact obeys_throw fails_idle
  | some row =>
    obtain ⟨sealed_, confirmedAt⟩ := row
    cases confirmedAt with
    | some _ => exact obeys_throw fails_idle
    | none =>
      refine obeys_bind (obeys_unsealSecret.mono fun s secret hs => ?_)
      subst hs
      refine obeys_bind (obeys_limit.mono fun s _ hs => ?_)
      subst hs
      refine obeys_bind (obeys_ask trivial fun now => obeys_ite (fun _ => ?_) fun _ => ?_)
      · refine obeys_bind (obeys_recordFailure.mono fun s _ hs => ?_)
        subst hs
        exact obeys_refuse
      · -- from here on the enrollment is confirmed
        refine obeys_bind (obeys_ask trivial fun now => obeys_bind (obeys_repo rfl fun _ => ?_))
        refine obeys_bind (obeys_replaceBackupCodes.mono fun s codes hs => ?_)
        subst hs
        exact obeys_ite (fun _ => obeys_pure rfl) fun _ => obeys_bind (obeys_repo rfl fun _ => obeys_pure rfl)

theorem obeys_disable : Obeys .disable (idle .disable) Service.disable fun s _ => s.request = .disable := by
  refine obeys_bind (obeys_repo rfl fun enrollment => ?_)
  cases enrollment with
  | none => exact obeys_throw fails_idle
  | some _ => exact obeys_bind (obeys_repo ⟨rfl, rfl⟩ fun _ => obeys_repo rfl fun _ => rfl)

theorem obeys_verifyCode {sealed_ code : String} {now : Time} : Obeys r (idle r) (svc.verifyCode sealed_ code now)
    fun s ok => s = idle r ∨ s = busy r ∧ ok = true := by
  refine obeys_ite (fun _ => obeys_pure (.inl rfl)) fun _ => obeys_bind (obeys_ask trivial fun secret => ?_)
  refine obeys_ite (fun _ => obeys_pure (.inl rfl)) fun _ => obeys_bind (obeys_ask rfl fun used => obeys_pure ?_)
  cases used with
  | error e => exact .inl rfl
  | ok used =>
    cases used with
    | false => exact .inl rfl
    | true => exact .inr ⟨rfl, rfl⟩

theorem obeys_verifyMFA {sessionID code : String} :
    Obeys r (idle r) (svc.verifyMFA sessionID code) fun s _ => s.request = r := by
  refine obeys_bind (obeys_repo rfl fun enrollment => ?_)
  cases enrollment with
  | none => exact obeys_throw fails_idle
  | some row =>
    obtain ⟨sealed_, confirmedAt⟩ := row
    cases confirmedAt with
    | none => exact obeys_throw fails_idle
    | some _ =>
      refine obeys_bind (obeys_limit.mono fun s _ hs => ?_)
      subst hs
      refine obeys_bind (obeys_ask trivial fun now => obeys_bind (obeys_verifyCode.mono fun s ok hs => ?_))
      have hstamp : ∀ (touched : Bool) (stamped : Except Err Unit → Proc Time), stamped (.ok ()) = pure now →
          (∀ e, stamped (.error e) =
            if e = .errNotFound then refuse (Webx.newUnauthenticated "session no longer valid") else throw e) →
          Obeys r { request := r, touched } (ask (.repo (.confirmSessionMFA sessionID now)) >>= stamped)
            fun s _ => s.request = r := by
        refine fun touched stamped hok herror => obeys_bind (obeys_ask rfl fun answer => ?_)
        cases answer with
        | ok u =>
          rw [hok]
          exact obeys_pure rfl
        | error e =>
          rw [herror]
          exact obeys_ite (fun _ => obeys_throw ⟨rfl, fun h => h⟩) fun _ => obeys_throw ⟨rfl, fun h => h⟩
      rcases hs with rfl | ⟨rfl, rfl⟩
      · refine obeys_ite (fun _ => hstamp false _ rfl fun _ => rfl) fun _ => obeys_bind (obeys_recordFailure.mono fun s _ hs => ?_)
        subst hs
        exact obeys_refuse
      · exact hstamp true _ rfl fun _ => rfl

theorem obeys_call (c : Call) : Obeys c.request (idle c.request) (c.exec svc) fun s _ => s.request = c.request := by
  cases c with
  | startEnrollment => exact obeys_bind (obeys_startEnrollment.mono fun _ _ hs => obeys_pure hs)
  | enable => exact obeys_bind (obeys_enable.mono fun _ _ hs => obeys_pure hs)
  | disable => exact obeys_disable
  | verifyMFA => exact obeys_bind (obeys_verifyMFA.mono fun _ _ hs => obeys_pure hs)

end rules

/-- Every request calls in order. -/
theorem program_accepts {svc : Service} {m : Script Op Unit} (h : Program svc m) : monitor.Accepts m := by
  obtain ⟨c, rfl⟩ := h
  intro s _
  refine Script.follows_bind (Script.follows_op trivial fun _ => Script.follows_bind ?_)
  refine Script.Follows.mono (obeys_call c) fun s r hr => ?_
  cases r with
  | ok _ => exact Script.follows_op ⟨hr.symm, fun h => (nomatch h)⟩ fun _ => trivial
  | error e => exact Script.follows_op ⟨hr.1.symm, fun _ => hr.2⟩ fun _ => trivial

/-! ## What statements leave -/

/-- The enrollment has been started, and is not pending. -/
def World.Settled (w : World) (n : Nat) : Prop :=
  n < w.enrollments ∧ ∀ e, w.enrollment = some e → e.number = n → e.confirmedAt ≠ none

/-- Codes have been stored for the enrollment. -/
def World.Supplied (w : World) (n : Nat) : Prop := ∃ c ∈ w.codes, c.enrollment = some n

/-- An enrollment is confirmed by one session, which stores codes for it once. -/
structure Kept (w : World) : Prop where
  numbered : ∀ e, w.enrollment = some e → e.number < w.enrollments
  tickets : Tickets w.Settled w.Supplied (Progress.confirmed ∘ w.progress)
  intact : Intact w.history

section kept

variable {w w' : World} {i : Nat}

theorem World.Fresh.kept (h : w.Fresh) : Kept w where
  numbered e he := by
    rw [h.enrollment] at he
    cases he
  tickets := by
    rw [h.progress]
    refine (Tickets.unused w.Settled).mono (fun _ hn => hn) (fun n ⟨c, hc, _⟩ => ?_) fun _ _ heq => heq
    rw [h.codes] at hc
    cases hc
  intact e he := by
    rw [h.history] at he
    cases he

theorem Intact.cons {history : List Event} {e : Event} (h : Intact history) (he : Intact [e]) : Intact (e :: history) := by
  intro e' he'
  rcases List.mem_cons.1 he' with rfl | he'
  · exact he e' (List.mem_singleton_self _)
  · exact h e' he'

theorem intact_removed : Intact [.removed .disable] := by
  intro e he
  cases List.mem_singleton.1 he
  rfl

/-- Nothing is left of an enrollment that was not, and no more codes. -/
theorem Kept.mono (hw : Kept w) (henrollment : w'.enrollment = none ∨ w'.enrollment = w.enrollment)
    (hcount : w'.enrollments = w.enrollments) (hcodes : ∀ n, w'.Supplied n → w.Supplied n)
    (hprogress : ∀ j n, (w'.progress j).confirmed = some n → (w.progress j).confirmed = some n)
    (hintact : Intact w'.history) : Kept w' where
  numbered e he := by
    rw [hcount]
    rcases henrollment with hnone | hsame
    · rw [hnone] at he
      cases he
    · exact hw.numbered e (hsame ▸ he)
  tickets := by
    refine hw.tickets.mono (fun n hn => ⟨hcount ▸ hn.1, fun e he => ?_⟩) hcodes hprogress
    rcases henrollment with hnone | hsame
    · rw [hnone] at he
      cases he
    · exact hn.2 e (hsame ▸ he)
  intact := hintact

/-- A session notes something else than what it has confirmed. -/
theorem confirmed_note {f : Progress → Progress} (hf : ∀ p n, (f p).confirmed = some n → p.confirmed = some n) (j n : Nat)
    (h : ((w.note i f).progress j).confirmed = some n) : (w.progress j).confirmed = some n := by
  have heq : (Progress.confirmed ∘ (w.note i f).progress) j = some n := h
  rw [World.note, Function.comp_update] at heq
  rcases Tickets.update_cases heq with ⟨rfl, hnoted⟩ | ⟨-, hheld⟩
  · exact hf _ n hnoted
  · exact hheld

/-- The enrollment is removed, which is recorded if it was confirmed. -/
theorem Kept.remove {c : Bool} {e : Event} {f : Progress → Progress} (hw : Kept w) (he : c → Intact [e])
    (hf : ∀ p n, (f p).confirmed = some n → p.confirmed = some n) :
    Kept (({ w with enrollment := none }.recordIf c e).note i f) := by
  cases c with
  | false =>
    exact hw.mono (.inl rfl) rfl (fun _ hn => hn) (confirmed_note (w := { w with enrollment := none }) hf) hw.intact
  | true =>
    exact hw.mono (.inl rfl) rfl (fun _ hn => hn) (confirmed_note (w := { w with enrollment := none }.record e) hf)
      (hw.intact.cons (he rfl))

/-- A pending enrollment is confirmed by the session that has it from now on. -/
theorem Kept.confirm {e : Enrollment} (hw : Kept w) (he : w.enrollment = some e) (hpending : e.confirmedAt = none) (now : Time) :
    Kept ({ w with enrollment := some { e with confirmedAt := some now } }.note i fun p =>
      { p with confirmed := some e.number, changed := true }) where
  numbered e' he' := by
    cases he'
    exact hw.numbered e he
  tickets := by
    rw [World.note, Function.comp_update]
    refine hw.tickets.take (fun hsettled => hsettled.2 e he rfl hpending) (fun n hn => ⟨hn.1, fun e' he' _ => ?_⟩)
      ⟨hw.numbered e he, fun e' he' _ => ?_⟩
    · cases he'
      exact Option.some_ne_none now
    · cases he'
      exact Option.some_ne_none now
  intact := hw.intact

/-- The session that has confirmed the enrollment stores codes for it, where there are none. -/
theorem Kept.supply {n : Nat} {codes : List BackupCode} (hw : Kept w) (hheld : (w.progress i).confirmed = some n)
    (hcodes : ∀ c ∈ codes, c.enrollment = some n) :
    Kept ({ w with codes := codes }.note i fun p => { p with confirmed := none, changed := true }) where
  numbered := hw.numbered
  tickets := by
    rw [World.note, Function.comp_update]
    refine hw.tickets.use hheld fun m ⟨c, hc, hm⟩ => .inl ?_
    exact Option.some.inj (hm.symm.trans (hcodes c hc))
  intact := hw.intact

/-- No codes are stored of an enrollment that a session has yet to store them for. -/
theorem Kept.hasCodes {n : Nat} (hw : Kept w) (hheld : (w.progress i).confirmed = some n) (hconfirmed : w.confirmed = some n) :
    w.hasCodes = false := by
  refine Bool.eq_false_iff.2 fun hcodes => ?_
  obtain ⟨c, hc, hunused⟩ := List.any_eq_true.1 hcodes
  have hof : c.enrollment = some n := by
    rw [← hconfirmed]
    exact (of_decide_eq_true hunused).2.2
  exact hw.tickets.fresh hheld ⟨c, hc, hof⟩

/-- Every statement keeps the enrollments, where nothing has come in between. -/
theorem Query.exec_kept {β : Type} {q : Query β} {s : Seen} (hw : Kept w) (hundisturbed : q.Undisturbed i w)
    (hallows : s.Allows (.repo q)) (hrequest : (w.progress i).request = s.request) : Kept (q.exec i w).2 := by
  cases q with
  | getMFA => exact hw
  | upsertPendingMFA secretSealed =>
    have hnone : w.confirmed.isSome = false := by
      rw [show w.confirmed = none from hundisturbed]
      rfl
    simp only [exec, hnone]
    refine ⟨fun e he => ?_, hw.tickets.mono (fun n hn => ⟨Nat.lt_trans hn.1 (Nat.lt_succ_self _), fun e he heq => ?_⟩) (fun _ hn => hn)
      fun _ _ heq => heq, hw.intact⟩
    · cases he
      exact Nat.lt_succ_self _
    · cases he
      exact absurd heq (Nat.ne_of_gt hn.1)
  | confirmMFA now =>
    simp only [exec]
    split
    · exact hw
    · rename_i e he
      obtain ⟨he, hpending⟩ := Option.filter_eq_some_iff.1 he
      exact hw.confirm he (of_decide_eq_true hpending) now
  | deleteMFA =>
    refine hw.remove (f := fun p => { p with changed := p.changed || w.confirmed.isSome }) (fun _ => ?_) fun _ _ heq => heq
    rw [hrequest, hallows.2]
    exact intact_removed
  | replaceBackupCodes codeHashes =>
    obtain ⟨n, hheld, hconfirmed⟩ := hundisturbed
    simp only [exec, hw.hasCodes hheld hconfirmed]
    refine hw.supply hheld fun c hc => ?_
    obtain ⟨codeHash, -, rfl⟩ := List.mem_map.1 hc
    exact hheld
  | consumeBackupCode codeHash now =>
    simp only [exec]
    split
    · refine hw.mono (.inr rfl) rfl (fun n ⟨c, hc, heq⟩ => ?_)
        (confirmed_note (w := w.useCode codeHash now) (f := fun p => { p with changed := true }) fun _ _ heq => heq) hw.intact
      obtain ⟨c', hc', rfl⟩ := List.mem_map.1 hc
      refine ⟨c', hc', ?_⟩
      split at heq
      · exact heq
      · exact heq
    · exact hw
  | confirmSessionMFA sessionID now =>
    simp only [exec]
    split
    · exact ⟨hw.numbered, hw.tickets, hw.intact⟩
    · exact hw
  | revokeAllUserSessions => exact ⟨hw.numbered, hw.tickets, hw.intact⟩
  | recordAttempt now => exact hw

end kept

/-! ## What sessions know of their requests -/

/-- A request that has changed something knows so, and none of its calls has failed since. -/
structure Agrees (p : Progress) (s : Seen) : Prop where
  request : p.request = s.request
  changed : p.changed → s.touched ∧ s.broken = false

structure Tracked (w : World) (seen : Nat → Seen) : Prop where
  kept : Kept w
  agrees : ∀ i, Agrees (w.progress i) (seen i)

section tracked

variable {w w' : World} {seen : Nat → Seen} {s : Seen} {i : Nat} {β : Type} {q : Query β}

theorem World.Fresh.tracked (h : w.Fresh) : Tracked w fun _ => {} := by
  refine ⟨h.kept, fun i => ?_⟩
  rw [h.progress]
  exact ⟨rfl, fun hchanged => (nomatch hchanged)⟩

theorem Seen.Allows.not_broken (h : s.Allows (.repo q)) : s.broken = false := by
  cases q with
  | deleteMFA => exact h.1
  | _ => exact h

theorem note_id (w : World) (i : Nat) : (w.note i id).progress = w.progress := Function.update_eq_self i w.progress

theorem recordIf_progress {c : Bool} {e : Event} : (w.recordIf c e).progress = w.progress := by
  cases c with
  | _ => rfl

theorem recordIf_note {c : Bool} {e : Event} {f : Progress → Progress} (h : w'.progress = w.progress) :
    ((w'.recordIf c e).note i f).progress = (w.note i f).progress := by
  rw [World.note, recordIf_progress, h]
  rfl

/-- What the session notes of a statement with this answer: a change only if it answers well. -/
def Query.Notes (q : Query β) (i : Nat) (w : World) (r : Except Err β) (w' : World) : Prop :=
  ∃ f : Progress → Progress, w'.progress = (w.note i f).progress ∧ (∀ p, (f p).request = p.request) ∧
    ∀ p, (f p).changed → p.changed ∨ ∃ a, r = .ok a ∧ q.touches a ∧ q.changes

theorem notes_nothing {r : Except Err β} (h : w'.progress = w.progress) : q.Notes i w r w' :=
  ⟨id, h.trans (note_id w i).symm, fun _ => rfl, fun _ => .inl⟩

theorem notes_change {a : β} (f : Progress → Progress) (h : w'.progress = (w.note i f).progress)
    (hrequest : ∀ p, (f p).request = p.request) (htouches : q.touches a) (hchanges : q.changes) : q.Notes i w (.ok a) w' :=
  ⟨f, h, hrequest, fun _ _ => .inr ⟨a, rfl, htouches, hchanges⟩⟩

theorem Query.exec_notes (q : Query β) (w : World) (i : Nat) : q.Notes i w (q.exec i w).1 (q.exec i w).2 := by
  cases q with
  | upsertPendingMFA secretSealed => exact notes_nothing recordIf_progress
  | confirmMFA now =>
    simp only [exec]
    split
    · exact notes_nothing rfl
    · rename_i e _
      exact notes_change (fun p => { p with confirmed := some e.number, changed := true }) rfl (fun _ => rfl) rfl rfl
  | deleteMFA =>
    exact notes_change (fun p => { p with changed := p.changed || w.confirmed.isSome }) (recordIf_note rfl) (fun _ => rfl) rfl rfl
  | replaceBackupCodes codeHashes =>
    exact notes_change (fun p => { p with confirmed := none, changed := true }) (recordIf_note rfl) (fun _ => rfl) rfl rfl
  | consumeBackupCode codeHash now =>
    simp only [exec]
    split
    · exact notes_change (fun p => { p with changed := true }) rfl (fun _ => rfl) rfl rfl
    · exact notes_nothing rfl
  | confirmSessionMFA sessionID now =>
    simp only [exec]
    split
    · exact notes_nothing rfl
    · exact notes_nothing rfl
  | _ => exact notes_nothing rfl

/-- One session moves. -/
theorem agrees_update {p p' : Nat → Progress} (hseen : ∀ j, Agrees (p j) (seen j)) (hother : ∀ j, j ≠ i → p' j = p j)
    (hself : Agrees (p' i) s) (j : Nat) : Agrees (p' j) (Function.update seen i s j) := by
  cases hj : decide (j = i) with
  | false =>
    have hne : j ≠ i := of_decide_eq_false hj
    rw [Function.update_of_ne hne, hother j hne]
    exact hseen j
  | true =>
    cases of_decide_eq_true hj
    rwa [Function.update_self]

/-- A session that notes nothing goes on. -/
theorem Tracked.move (h : Tracked w seen) (hkept : Kept w') (hprogress : w'.progress = w.progress)
    (hrequest : s.request = (seen i).request) (hchanged : (w.progress i).changed → s.touched ∧ s.broken = false) :
    Tracked w' (Function.update seen i s) := by
  refine ⟨hkept, agrees_update h.agrees (fun j _ => congrFun hprogress j) ?_⟩
  rw [hprogress]
  exact ⟨(h.agrees i).request.trans hrequest.symm, hchanged⟩

/-- A statement is made, or is answered as if it had not been. -/
theorem Tracked.query {r : Except Err β} (h : Tracked w seen) (hstep : Step i (.repo q) w r w')
    (hallows : (seen i).Allows (.repo q)) (hundisturbed : Undisturbed i (.repo q) w) :
    Tracked w' (Function.update seen i ((seen i).next (.repo q) r)) := by
  obtain ⟨hseen, hsucceeds, hanswered⟩ := hundisturbed
  have hkept := q.exec_kept h.kept hseen hallows (h.agrees i).request
  obtain ⟨f, hprogress, hserves, hnotes⟩ := q.exec_notes w i
  have hother : ∀ j, j ≠ i → (q.exec i w).2.progress j = w.progress j := fun j hj => by rw [hprogress, w.note_ne hj]
  have hself : (q.exec i w).2.progress i = f (w.progress i) := by rw [hprogress, w.note_self]
  have hrequest := (hserves (w.progress i)).trans (h.agrees i).request
  simp only [Step] at hstep
  split at hstep
  · obtain ⟨hr, rfl⟩ := Prod.ext_iff.1 hstep
    refine ⟨hkept, agrees_update h.agrees hother (hself ▸ ?_)⟩
    cases r with
    | ok a =>
      refine ⟨hrequest, fun hchanged => ?_⟩
      rcases hnotes _ hchanged with hbefore | ⟨a', ha', htouches, -⟩
      · obtain ⟨htouched, hbroken⟩ := (h.agrees i).changed hbefore
        exact ⟨Bool.or_eq_true_iff.2 (.inl htouched), hbroken⟩
      · cases hr.trans ha'
        exact ⟨Bool.or_eq_true_iff.2 (.inr htouches), hallows.not_broken⟩
    | error e =>
      -- a request that has changed something is not refused, and what is refused changes nothing
      refine ⟨hrequest, fun hchanged => ?_⟩
      rcases hnotes _ hchanged with hbefore | ⟨a, ha, -⟩
      · obtain ⟨-, a, ha⟩ := hsucceeds hbefore
        cases hr.trans ha
      · cases hr.trans ha
  · rename_i hfault
    obtain ⟨⟨e, rfl⟩, rfl⟩ := hstep
    refine h.move h.kept rfl rfl fun hchanged => ?_
    cases hfault.symm.trans (hsucceeds hchanged).1
  · rename_i hfault
    obtain ⟨⟨e, rfl⟩, rfl⟩ := hstep
    refine ⟨hkept, agrees_update h.agrees hother (hself ▸ ⟨hrequest, fun hchanged => ?_⟩)⟩
    rcases hnotes _ hchanged with hbefore | ⟨a, -, -, hchanges⟩
    · cases hfault.symm.trans (hsucceeds hbefore).1
    · exact absurd hfault (hanswered hchanges)

/-- Every call keeps the enrollments and what sessions know, where nothing comes in between. -/
theorem Step.tracked {o : Op β} {r : β} (h : Step i o w r w') (hallows : (seen i).Allows o) (hundisturbed : Undisturbed i o w)
    (hw : Tracked w seen) : Tracked w' (Function.update seen i ((seen i).next o r)) := by
  cases o with
  | begin request =>
    cases h
    refine ⟨hw.kept.mono (.inr rfl) rfl (fun _ hn => hn) (fun j n hj => ?_) hw.kept.intact,
      agrees_update hw.agrees (fun j hj => w.note_ne hj _) ?_⟩
    · exact confirmed_note (f := fun _ => { request := request }) (fun _ _ heq => nomatch heq) j n hj
    · rw [w.note_self]
      exact ⟨rfl, fun hchanged => absurd hchanged Bool.false_ne_true⟩
  | returned request ok =>
    cases h
    refine hw.move ?_ recordIf_progress rfl (hw.agrees i).changed
    cases ok with
    | true => exact hw.kept
    | false =>
      have hunchanged : (w.progress i).changed = false := by
        refine Bool.eq_false_iff.2 fun hchanged => ?_
        obtain ⟨htouched, hbroken⟩ := (hw.agrees i).changed hchanged
        exact absurd (hallows.2 rfl htouched) (by rw [hbroken]; exact Bool.false_ne_true)
      refine ⟨hw.kept.numbered, hw.kept.tickets, hw.kept.intact.cons fun e he => ?_⟩
      cases List.mem_singleton.1 he
      exact hunchanged
  | now =>
    obtain ⟨-, rfl⟩ := h
    exact hw.move hw.kept rfl rfl (hw.agrees i).changed
  | repo q => exact hw.query h hallows hundisturbed
  | _ =>
    cases h
    exact hw.move hw.kept rfl rfl (hw.agrees i).changed

end tracked

/-! ## Runs -/

theorem emptyWorld_fresh : emptyWorld.Fresh := ⟨rfl, rfl, rfl, rfl⟩

def Query.undisturbed (i : Nat) : {β : Type} → Query β → World → Bool
  | _, .upsertPendingMFA _, w => w.confirmed = none
  | _, .replaceBackupCodes _, w => (w.progress i).confirmed.any fun n => w.confirmed = some n
  | _, _, _ => true

def undisturbed (i : Nat) : {β : Type} → Op β → World → Bool
  | _, .repo q, w => q.undisturbed i w ∧ ((w.progress i).changed → w.fault = none ∧ (q.exec i w).1.toOption.isSome) ∧
    (q.changes → w.fault ≠ some .after)
  | _, _, _ => true

theorem undisturbed_holds (i : Nat) {β : Type} (o : Op β) (w : World) (h : undisturbed i o w) : Undisturbed i o w := by
  cases o with
  | repo q =>
    obtain ⟨hseen, hsucceeds, hanswered⟩ := of_decide_eq_true h
    refine ⟨?_, fun hchanged => ⟨(hsucceeds hchanged).1, ?_⟩, hanswered⟩
    · cases q with
      | upsertPendingMFA secretSealed =>
        have hnone : w.confirmed = none := of_decide_eq_true hseen
        exact hnone
      | replaceBackupCodes codeHashes =>
        obtain ⟨n, hheld, hconfirmed⟩ := (Option.any_eq_true _ _).1 hseen
        exact ⟨n, hheld, of_decide_eq_true hconfirmed⟩
      | _ => trivial
    · have hsome := (hsucceeds hchanged).2
      cases hr : (q.exec i w).1 with
      | ok a => exact ⟨a, rfl⟩
      | error e =>
        rw [hr] at hsome
        cases hsome
  | _ => trivial

def started : Turns := serves 0 .startEnrollment 6

def enabled (i : Nat) : Turns := serves i (.enable "session" "123456") 11

/-- An enrollment is started, confirmed and removed. -/
def disabledAgain : Turns := started ++ enabled 1 ++ serves 2 .disable 5

theorem disabledAgain_legal {M : Machine Op World} : disabledAgain.Forall (Turn.Legal M (Program plainService)) :=
  List.forall_append.2 ⟨List.forall_append.2 ⟨serves_legal .., serves_legal ..⟩, serves_legal ..⟩

/-- A second enrollment is started before the first is confirmed, and stored after it. -/
def startedTwice : Turns := started ++ serves 2 .startEnrollment 2 ++ enabled 1 ++ [.calls 2 4]

theorem startedTwice_legal {M : Machine Op World} : startedTwice.Forall (Turn.Legal M (Program plainService)) := by
  refine List.forall_append.2 ⟨List.forall_append.2 ⟨List.forall_append.2 ⟨serves_legal .., serves_legal ..⟩, serves_legal ..⟩, ?_⟩
  trivial

end Ploykit.Identity.MFA

import Ploykit.Lib.Schedule
import Ploykit.Webhooks.Subscriptions

/-!
# Deserved disabling

The start of a streak of failures is kept in the row: a failure sets it where it is not
set, a success clears it. An activation leaves it, so a streak may go on from before.
-/

namespace Ploykit.Webhooks

open Lib

/-! ## Streaks -/

namespace Event

/-- The recorded start of a streak goes, or should go. -/
def resets (sub : String) : Event → Bool
  | .created id _ => id = sub
  | .activated id => id = sub
  | .cleared id => id = sub
  | _ => false

/-- A streak of failures cannot go on over the event. -/
def revives (sub : String) : Event → Bool
  | .created id _ => id = sub
  | .activated id => id = sub
  | .succeeded id => id = sub
  | _ => false

theorem touches_of_resets {sub : String} {e : Event} (h : e.touches sub = false) : e.resets sub = false := by
  cases e with
  | created id secret => exact h
  | activated id => exact h
  | cleared id => exact h
  | _ => rfl

end Event

/-- Since the time `f` nothing but failures and successes that are not cleared. -/
def FailedSince (sub : String) (f : Time) (h : History) : Prop :=
  ∃ recent before, h = recent ++ (f, .failed sub) :: before ∧ ∀ e ∈ recent, e.2.resets sub = false

/-- All failures in a row for the whole window, since the last success and the last activation. -/
def Deserved (sub : String) (t : Time) (h : History) : Prop :=
  ∃ f recent before, h = recent ++ (f, .failed sub) :: before ∧ f + autoDisableWindow ≤ t ∧
    ∀ e ∈ recent, e.2.revives sub = false

/-- Whatever subscription failures have disabled deserved it. -/
def AllDeserved : History → Prop :=
  Throughout fun t e earlier => ∀ sub, e = .disabled .failures sub → Deserved sub t earlier

/-- A receiver has answered with success, which has not been cleared in the row. -/
def successPending (sub : String) (h : History) : Bool :=
  (h.takeWhile fun e => e.2 ≠ .cleared sub).any fun e => e.2 = .succeeded sub

theorem FailedSince.deserved {sub : String} {f t : Time} {h : History} (hf : FailedSince sub f h)
    (hwindow : f + autoDisableWindow ≤ t) (hpending : successPending sub h = false) : Deserved sub t h := by
  obtain ⟨recent, before, rfl, hrecent⟩ := hf
  refine ⟨f, recent, before, rfl, hwindow, fun e he => ?_⟩
  have huncleared : ∀ e ∈ recent, decide (e.2 ≠ .cleared sub) = true := by
    intro e he
    refine decide_eq_true fun heq => ?_
    have hreset := hrecent e he
    rw [heq] at hreset
    simp [Event.resets] at hreset
  have hnone : ∀ e ∈ recent, e.2 ≠ .succeeded sub := by
    intro e he heq
    have hany : successPending sub (recent ++ (f, .failed sub) :: before) = true := by
      refine List.any_eq_true.2 ⟨e, ?_, decide_eq_true heq⟩
      rw [List.takeWhile_append_of_pos huncleared]
      exact List.mem_append_left _ he
    rw [hpending] at hany
    cases hany
  have hreset := hrecent e he
  have hnot := hnone e he
  obtain ⟨t', ev⟩ := e
  cases ev with
  | created id secret => exact hreset
  | activated id => exact hreset
  | succeeded id => exact decide_eq_false fun hid => hnot (by rw [hid])
  | _ => rfl

theorem FailedSince.record {sub : String} {f : Time} {w : World} {events : List Event} (h : FailedSince sub f w.history)
    (hevents : ∀ e ∈ events, e.resets sub = false) : FailedSince sub f (w.record events).history := by
  obtain ⟨recent, before, hh, hrecent⟩ := h
  refine ⟨events.map (fun e => (w.clock, e)) ++ recent, before, ?_, fun e he => ?_⟩
  · rw [World.record, hh, List.append_assoc]
  · rcases List.mem_append.1 he with he | he
    · obtain ⟨ev, hev, rfl⟩ := List.mem_map.1 he
      exact hevents ev hev
    · exact hrecent e he

theorem AllDeserved.record {w : World} {events : List Event} (h : AllDeserved w.history)
    (hevents : ∀ sub, .disabled .failures sub ∈ events →
      events = [.disabled .failures sub] ∧ Deserved sub w.clock w.history) : AllDeserved (w.record events).history := by
  by_cases hmem : ∃ sub, .disabled .failures sub ∈ events
  · obtain ⟨sub, hsub⟩ := hmem
    obtain ⟨rfl, hdeserved⟩ := hevents sub hsub
    exact ⟨fun sub' heq => by cases heq; exact hdeserved, h⟩
  · exact Throughout.record h fun e he t earlier sub heq => (hmem ⟨sub, heq ▸ he⟩).elim

/-- What a search for the start of the streak finds. -/
theorem Deserved.found {sub : String} {t : Time} {h : History} (hdeserved : Deserved sub t h) :
    (h.takeWhile fun e => !e.2.revives sub).any fun e => e.2 = .failed sub ∧ e.1 + autoDisableWindow ≤ t := by
  obtain ⟨f, recent, before, rfl, hwindow, hrecent⟩ := hdeserved
  have hfound : (f, Event.failed sub) ∈ (recent ++ (f, Event.failed sub) :: before).takeWhile fun e => !e.2.revives sub := by
    rw [List.takeWhile_append_of_pos fun e he => by rw [hrecent e he]; rfl]
    exact List.mem_append_right _ (List.mem_cons_self ..)
  exact List.any_eq_true.2 ⟨_, hfound, decide_eq_true ⟨rfl, hwindow⟩⟩

/-! ## The calls that activate and disable -/

/-- An activation finds no failure recorded. Where failures disable, the recorded start is
still the one that has been read, and every success has been cleared. -/
def StreaksFresh (i : Nat) : {β : Type} → Op β → World × (Nat → Round) → Prop
  | _, .stmt (.setSubscriptionActive cause _ id active), x => ∀ row ∈ x.1.db.subscription id,
      (active = true → row.firstFailureAt = none) ∧
      (cause = .failures → (x.2 i).failure = row.firstFailureAt.map (id, ·) ∧ successPending id x.1.history = false)
  | _, _, _ => True

section calls

variable {svc : Service} {w w' : World} {rounds : Nat → Round} {i : Nat} {β : Type} {o : Op β} {r : β} {sub : String}

theorem StreaksFresh.activated (h : StreaksFresh i o (w, rounds)) (he : .activated sub ∈ o.events i w.db r) :
    ∀ row ∈ w.db.subscription sub, row.firstFailureAt = none := by
  cases o with
  | post req =>
    cases r with
    | error err => simp [Op.events, postEvents] at he
    | ok resp =>
      simp only [Op.events, postEvents] at he
      split at he <;> simp at he
  | stmt s =>
    cases r with
    | error err => cases he
    | ok a =>
      cases s with
      | setSubscriptionActive cause workspaceID id active =>
        simp only [Op.events, Stmt.events] at he
        split at he
        · cases he
        split at he
        · rename_i hactive
          cases List.mem_singleton.1 he
          exact fun row hrow => (h row hrow).1 hactive
        · cases List.mem_singleton.1 he
      | setFirstFailure deliveryID =>
        simp only [Op.events, Stmt.events] at he
        split at he
        · cases he
        · split at he <;> simp at he
      | _ => simp [Op.events, Stmt.events] at he
  | _ => cases he

/-- What failures have disabled was read to have failed for the window. -/
theorem StreaksFresh.disabled (h : StreaksFresh i o (w, rounds)) (hallows : svc.allows (rounds i) o)
    (hstep : Step i o w r w') (he : .disabled .failures sub ∈ o.events i w.db r) :
    o.events i w.db r = [.disabled .failures sub] ∧ successPending sub w.history = false ∧
      ∃ row f now, w.db.subscription sub = some row ∧ row.firstFailureAt = some f ∧ now ∈ (rounds i).readings ∧
        autoDisableWindow ≤ now - f := by
  cases o with
  | post req =>
    cases r with
    | error err => simp [Op.events, postEvents] at he
    | ok resp =>
      simp only [Op.events, postEvents] at he
      split at he <;> simp at he
  | stmt s =>
    cases r with
    | error err => cases he
    | ok a =>
      cases s with
      | setSubscriptionActive cause workspaceID id active =>
        simp only [Op.events, Stmt.events] at he ⊢
        split at he
        · cases he
        rename_i hfound
        split at he
        · cases List.mem_singleton.1 he
        rename_i hactive
        cases List.mem_singleton.1 he
        rw [if_neg hfound, if_neg hactive]
        obtain ⟨-, f, hfailure, now, hnow, hwindow⟩ := hallows
        rcases hstep with ⟨err, herr, -⟩ | ⟨c, a', db', hrun, ha, -⟩
        · cases herr
        cases ha
        simp only [Stmt.run] at hrun
        split at hrun
        · cases hrun
          exact (hfound rfl).elim
        · rename_i row hown
          have hrow := subscription_of_own hown
          obtain ⟨hread, hpending⟩ := (h row hrow).2 rfl
          rw [hfailure] at hread
          obtain ⟨f', hf', heq⟩ := Option.map_eq_some_iff.1 hread.symm
          cases heq
          exact ⟨rfl, hpending, row, f, now, hrow, hf', hnow, hwindow⟩
      | setFirstFailure deliveryID =>
        simp only [Op.events, Stmt.events] at he
        split at he
        · cases he
        · split at he <;> simp at he
      | _ => simp [Op.events, Stmt.events] at he
  | _ => cases he

end calls

/-! ## Every call keeps the streaks -/

/-- Every recorded start of a streak is one, and what has been disabled by failures deserved it. -/
structure Streaks (w : World) (rounds : Nat → Round) : Prop where
  told : ∀ i, (rounds i).Told w.clock
  streak : ∀ sub row f, w.db.subscription sub = some row → row.firstFailureAt = some f → FailedSince sub f w.history
  deserved : AllDeserved w.history

theorem Streaks.exec {svc : Service} {w w' : World} {rounds : Nat → Round} {i : Nat} {β : Type} {o : Op β} {r : β}
    (h : Streaks w rounds) (hallows : svc.allows (rounds i) o) (hfresh : StreaksFresh i o (w, rounds))
    (hstep : Step i o w r w') : Streaks w' (Function.update rounds i ((rounds i).next o r)) := by
  refine ⟨hstep.told_update h.told, fun sub row f hrow hf => ?_, ?_⟩
  · have hchange := hstep.change sub
    rw [hstep.history]
    generalize hevents : o.events i w.db r = events at hchange
    generalize hbefore : w.db.subscription sub = before at hchange
    generalize w'.db.subscription sub = after at hchange hrow
    cases hchange with
    | untouched hnone =>
      exact (h.streak sub row f (hbefore.trans hrow) hf).record fun e he => Event.touches_of_resets (hnone e he)
    | created hold hexpires hfailure =>
      cases hrow
      rw [hfailure] at hf
      cases hf
    | deleted => cases hrow
    | @rotated row₀ newSealed oldExpiresAt =>
      cases hrow
      refine (h.streak sub row₀ f hbefore hf).record fun e he => ?_
      cases List.mem_singleton.1 he
      rfl
    | @activated row₀ =>
      cases hrow
      have hnone : row₀.firstFailureAt = none := hfresh.activated (hevents ▸ List.mem_singleton_self _) row₀ hbefore
      change row₀.firstFailureAt = some f at hf
      rw [hnone] at hf
      cases hf
    | @disabled row₀ cause =>
      cases hrow
      refine (h.streak sub row₀ f hbefore hf).record fun e he => ?_
      cases List.mem_singleton.1 he
      rfl
    | failed hnone =>
      -- the streak starts here
      cases hrow
      cases hf
      exact ⟨[], w.history, rfl, fun e he => (List.not_mem_nil he).elim⟩
    | cleared =>
      obtain ⟨row₀, -, rfl⟩ := Option.map_eq_some_iff.1 hrow
      cases hf
  · rw [hstep.history]
    refine h.deserved.record fun sub he => ?_
    obtain ⟨honly, hpending, row, f, now, hrow, hf, hnow, hwindow⟩ := hfresh.disabled hallows hstep he
    have hclock : now ≤ w.clock := (List.pairwise_cons.1 (h.told i)).1 now hnow
    have hlong : f + autoDisableWindow ≤ w.clock := (le_sub_iff_add_le'.1 hwindow).trans hclock
    exact ⟨honly, (h.streak sub row f hrow hf).deserved hlong hpending⟩

/-- A subscription is disabled by failures only after failures in a row for the whole window,
which began after its last success and its last activation. -/
theorem auto_disable_deserved (svc : Service) {w : World} (hhistory : w.history = [])
    (hrows : ∀ s ∈ w.db.subscriptions.rows, s.firstFailureAt = none)
    {past : List (Pool Op (World × (Nat → Round)) Unit)} {p : Pool Op (World × (Nat → Round)) Unit}
    (h : Run (Pool.Next ((machine.watched svc.rounds).given StreaksFresh) svc.Program)
      (Pool.idle (w, fun _ => svc.rounds.init)) past p) : AllDeserved p.shared.1.history := by
  have hstreaks : Streaks p.shared.1 p.shared.2 := by
    refine Pool.watched_invariant (I := fun x => Streaks x.1 x.2) h (fun m => Service.Program.accepted) ?_ ?_ ?_ ?_
    · refine ⟨fun i => Round.told_empty rfl, fun sub row f hrow hf => ?_, ?_⟩
      · rw [hrows row (Keyed.mem_of_get hrow)] at hf
        cases hf
      · rw [hhistory]
        trivial
    · intro i β o r x x' hx hallows hfresh hstep hrounds
      rw [hrounds]
      exact hx.exec hallows hfresh hstep
    · intro i x hx
      refine ⟨?_, fun sub row f hrow hf => ?_, ?_⟩
      · exact Function.forall_update_iff x.2 (fun _ γ => γ.Told x.1.clock) |>.2
          ⟨Round.told_empty rfl, fun j _ => hx.told j⟩
      · have hcrash : ∀ e ∈ [Event.crashed i], e.resets sub = false := fun e he => List.mem_singleton.1 he ▸ rfl
        exact (hx.streak sub row f hrow hf).record hcrash
      · exact hx.deserved.record fun sub he => by cases List.mem_singleton.1 he
    · intro x w' hx ⟨hdb, hhist, hclock⟩
      refine ⟨fun i => (hx.told i).later hclock, ?_, ?_⟩
      · change ∀ sub row f, w'.db.subscription sub = some row → _ → FailedSince sub f w'.history
        rw [hdb, hhist]
        exact hx.streak
      · change AllDeserved w'.history
        rw [hhist]
        exact hx.deserved
  exact hstreaks.deserved

/-! ### A subscription that keeps failing -/

/-- The receiver fails, and after the first time wants no more attempts. -/
def answerFailure (_ : Nat) (w : World) : Except String Response := .ok ⟨500, 0 < w.clock⟩

def streaksFresh (i : Nat) : {β : Type} → Op β → World × (Nat → Round) → Bool
  | _, .stmt (.setSubscriptionActive cause _ id active), x => (x.1.db.subscription id).all fun row =>
      (active = true → row.firstFailureAt = none) ∧
      (cause = .failures → (x.2 i).failure = row.firstFailureAt.map (id, ·) ∧ successPending id x.1.history = false)
  | _, _, _ => true

theorem streaksFresh_fresh (i : Nat) {β : Type} (o : Op β) (x : World × (Nat → Round)) (h : streaksFresh i o x) :
    StreaksFresh i o x := by
  cases o with
  | stmt s =>
    cases s with
    | setSubscriptionActive cause workspaceID id active =>
      intro row hrow
      exact of_decide_eq_true (Option.all_eq_true _ _ |>.1 h row hrow)
    | _ => trivial
  | _ => trivial

def failing : List (Turn Op (World × (Nat → Round)) Unit) :=
  [.start 0 (plainService.deliverPending 20), .calls 0 9, .finish 0, .env fun x => (x.1.wait autoDisableWindow, x.2),
    .start 0 (plainService.deliverPending 20), .calls 0 11]

theorem failing_legal : failing.Forall
    (Turn.Legal ((machine.watched plainService.rounds).given StreaksFresh) plainService.Program) :=
  ⟨.deliverPending 20, trivial, trivial, fun x => ⟨World.wait_env (by decide) x.1, rfl⟩, .deliverPending 20, trivial⟩

theorem auto_disable_deserved_failing : ∃ past p,
    Run (Pool.Next ((machine.watched plainService.rounds).given StreaksFresh) plainService.Program)
      (Pool.idle (loneWorld, fun _ => plainService.rounds.init)) past p ∧
    (∃ t, (t, .disabled .failures "subscription") ∈ p.shared.1.history) ∧ AllDeserved p.shared.1.history := by
  have hplay : (Pool.play (guarded streaksFresh (plainService.rounds.execute (World.exec answerFailure))) failing
      (Pool.idle (loneWorld, fun _ => plainService.rounds.init))).any fun p =>
        p.shared.1.history.any fun e => e.2 = .disabled .failures "subscription" := by decide
  obtain ⟨past, p, hrun, hp⟩ := Pool.play_any
    (guarded_step streaksFresh_fresh (plainService.rounds.execute_step World.exec_step)) failing_legal hplay
  obtain ⟨⟨t, e⟩, he, heq⟩ := List.any_eq_true.1 hp
  cases of_decide_eq_true heq
  exact ⟨past, p, hrun, ⟨t, he⟩, auto_disable_deserved plainService rfl (by decide) hrun⟩

/-- The subscription is paused while nothing is sent, and then used again. -/
def reactivated : List (Turn Op World Unit) :=
  [.start 0 (plainService.deliverPending 20), .calls 0 9, .finish 0,
    .start 1 (setSubscriptionActive .request "workspace" "subscription" false >>= fun _ => return ()), .calls 1 1, .finish 1,
    .env (World.wait autoDisableWindow),
    .start 1 (setSubscriptionActive .request "workspace" "subscription" true >>= fun _ => return ()), .calls 1 1, .finish 1,
    .start 0 (plainService.deliverPending 20), .calls 0 11]

theorem reactivated_legal : reactivated.Forall (Turn.Legal machine plainService.Program) :=
  ⟨.deliverPending 20, trivial, trivial, .setSubscriptionActive .., trivial, trivial, World.wait_env (by decide),
    .setSubscriptionActive .., trivial, trivial, .deliverPending 20, trivial⟩

/-- The last event disables a subscription that has not failed for as long as the window. -/
def disablesEarly : History → Bool
  | (t, .disabled .failures sub) :: earlier => !(earlier.takeWhile fun e => !e.2.revives sub).any fun e =>
      e.2 = .failed sub ∧ e.1 + autoDisableWindow ≤ t
  | _ => false

theorem disabled_on_reactivation : ¬ ∀ (svc : Service) (w : World) (past : List (Pool Op World Unit))
    (p : Pool Op World Unit), w.history = [] → (∀ s ∈ w.db.subscriptions.rows, s.firstFailureAt = none) →
    Run (Pool.Next machine svc.Program) (Pool.idle w) past p → AllDeserved p.shared.history := by
  intro h
  have hplay : (Pool.play (World.exec answerFailure) reactivated (Pool.idle loneWorld)).any fun p =>
      disablesEarly p.shared.history := by decide
  obtain ⟨past, p, hrun, hp⟩ := Pool.play_any World.exec_step reactivated_legal hplay
  have hdeserved := h plainService loneWorld past p rfl (by decide) hrun
  unfold disablesEarly at hp
  split at hp
  · rename_i t sub earlier hhistory
    rw [hhistory] at hdeserved
    rw [(hdeserved.1 sub rfl).found] at hp
    cases hp
  · cases hp

end Ploykit.Webhooks

import Ploykit.Lib.Monitor
import Ploykit.Webhooks.Service

/-!
# Runs of the webhook service

Sessions execute their calls one at a time over a store, a clock and a history. The
history is only written: it is what an observer of the store and of the wire has seen,
the latest first, with the times.

A session that delivers is watched by a `Round`, its local variables.
-/

namespace Ploykit.Webhooks

open Lib

/-! ## The world -/

inductive Event where
  | created (subscriptionID secret : String)
  | rotated (subscriptionID retired : String) (oldExpiresAt : Time) (secret : String)
  | activated (subscriptionID : String)
  | disabled (cause : Cause) (subscriptionID : String)
  | claimed (worker : Nat) (d : PendingDelivery)
  | posted (worker : Nat) (req : Request)
  /-- A receiver of the subscription has answered with success. -/
  | succeeded (subscriptionID : String)
  | marked (deliveryID : String) (status : DeliveryStatus)
  /-- The first failure of the subscription is recorded. -/
  | failed (subscriptionID : String)
  | cleared (subscriptionID : String)
  | crashed (worker : Nat)
  deriving DecidableEq, Repr

abbrev History := List (Time × Event)

structure World where
  db : Db
  clock : Time
  history : History

def World.record (w : World) (events : List Event) : World :=
  { w with history := events.map (fun e => (w.clock, e)) ++ w.history }

/-- Each event, with its time and the history before it, satisfies `Q`. -/
def Throughout (Q : Time → Event → History → Prop) : History → Prop
  | [] => True
  | (t, e) :: h => Q t e h ∧ Throughout Q h

/-- Events that `Q` says nothing about. -/
theorem Throughout.record {Q : Time → Event → History → Prop} {w : World} {events : List Event}
    (h : Throughout Q w.history) (hevents : ∀ e ∈ events, ∀ t h, Q t e h) : Throughout Q (w.record events).history := by
  induction events with
  | nil => exact h
  | cons e events ih => exact ⟨hevents e (.head _) _ _, ih fun e he => hevents e (.tail _ he)⟩

/-- What an observer sees of a statement that session `i` executes in `db`. -/
def Stmt.events (i : Nat) (db : Db) : {β : Type} → Stmt β → β → List Event
  | _, .claimPending _, pending => pending.map (.claimed i)
  | _, .markDelivered deliveryID _ _, _ => [.marked deliveryID .delivered]
  | _, .markRetry deliveryID _ _ _ dead, _ => [.marked deliveryID (if dead then .dead else .pending)]
  | _, .clearFirstFailure deliveryID, _ => (db.subscriptionOf deliveryID).toList.map .cleared
  | _, .setFirstFailure deliveryID, _ =>
    match (db.subscriptionOf deliveryID).bind db.subscription with
    | none => []
    | some s => if s.firstFailureAt.isNone then [.failed s.id] else []
  | _, .setSubscriptionActive cause _ id active, n =>
    if n = 0 then [] else if active then [.activated id] else [.disabled cause id]
  | _, .rotateSecret _ id newSealed oldExpiresAt, n =>
    if n = 0 then [] else (db.subscription id).toList.map fun s => .rotated id s.secret oldExpiresAt newSealed
  | _, .createSubscription _ _ _ _, s => [.created s.id s.secret]
  | _, _, _ => []

/-- What an observer sees of a request and its answer. -/
def postEvents (i : Nat) (db : Db) (req : Request) : Except String Response → List Event
  | .ok resp =>
    (if resp.succeeded then (db.subscriptionOf req.deliveryID).toList.map .succeeded else []) ++ [.posted i req]
  | .error _ => [.posted i req]

/-- What an observer sees of a call and its answer. -/
def Op.events (i : Nat) (db : Db) : {β : Type} → Op β → β → List Event
  | _, .post req, r => postEvents i db req r
  | _, .stmt s, .ok a => s.events i db a
  | _, .stmt _, .error _ => []
  | _, _, _ => []

/-- One call of session `i`. A statement that fails changes nothing. -/
def Step (i : Nat) : {β : Type} → Op β → World → β → World → Prop
  | _, .now, w, r, w' => r = w.clock ∧ w' = w
  | _, .jitter d, w, r, w' => (4 * d ≤ 5 * r ∧ 5 * r ≤ 6 * d) ∧ w' = w
  | _, .mintSecret, w, _, w' => w' = w
  | _, .mintEventID, w, _, w' => w' = w
  | _, .sealSecret _, w, _, w' => w' = w
  | _, .validateTarget _, w, _, w' => w' = w
  | _, .newRequest _, w, _, w' => w' = w
  | _, .post req, w, r, w' => w' = w.record (postEvents i w.db req r)
  | _, .stmt s, w, r, w' => (∃ err, r = .error err ∧ w' = w) ∨
      ∃ c a db', s.run c w.clock w.db = .ok (a, db') ∧ r = .ok a ∧
        w' = { w.record (s.events i w.db a) with db := db' }

/-- Time passes between the calls. -/
def machine : Machine Op World where
  step i := Step i
  abort i w := w.record [.crashed i]
  env w w' := w'.db = w.db ∧ w'.history = w.history ∧ w.clock ≤ w'.clock

/-- An execution of a call, where nothing fails but what receivers answer. -/
def World.exec (answer : Nat → World → Except String Response) (i : Nat) :
    {β : Type} → Op β → World → Option (β × World)
  | _, .now, w => some (w.clock, w)
  | _, .jitter d, w => if 0 ≤ d then some (d, w) else none
  | _, .mintSecret, w => some (.ok ("whsec_" ++ toString w.history.length), w)
  | _, .mintEventID, w => some ("ping", w)
  | _, .sealSecret plain, w => some (.ok plain, w)
  | _, .validateTarget _, w => some (.ok (), w)
  | _, .newRequest _, w => some (.ok (), w)
  | _, .post req, w => some (answer i w, w.record (postEvents i w.db req (answer i w)))
  | _, .stmt s, w =>
    match s.run { newID := fun owner => if owner = "" then "subscription" else "delivery" } w.clock w.db with
    | .ok (a, db') => some (.ok a, { w.record (s.events i w.db a) with db := db' })
    | .error err => some (.error err, w)

theorem World.exec_step {answer : Nat → World → Except String Response} (i : Nat) {β : Type} (o : Op β)
    (w : World) (r : β) (w' : World) (h : World.exec answer i o w = some (r, w')) : machine.step i o w r w' := by
  cases o with
  | now => cases h; exact ⟨rfl, rfl⟩
  | jitter d =>
    simp only [World.exec] at h
    split at h
    · rename_i hd
      cases h
      have hd : (0 : Int) ≤ d := hd
      have hlow : (4 * d : Int) ≤ 5 * d := by omega
      have hhigh : (5 * d : Int) ≤ 6 * d := by omega
      exact ⟨⟨hlow, hhigh⟩, rfl⟩
    · cases h
  | stmt s =>
    simp only [World.exec] at h
    split at h
    · rename_i a db' hrun
      cases h
      exact .inr ⟨_, a, db', hrun, rfl, rfl⟩
    · cases h
      exact .inl ⟨_, rfl, rfl⟩
  | _ => cases h; rfl

/-! ### A small world -/

def plainService : Service where
  catalog := ["task.created"]
  unsealSecret := .ok
  hmac key msg := key ++ "." ++ msg

/-- One delivery that is due. -/
def loneWorld : World where
  db.subscriptions := ⟨[{
    id := "subscription", workspaceID := "workspace", eventTypes := ["task.created"], url := "https://example.com"
    secret := "whsec", isActive := true }], by decide⟩
  db.deliveries := ⟨[{
    id := "delivery", subscriptionID := some "subscription", workspaceID := "workspace", eventID := "event"
    eventType := "task.created", payload := "\x7b\x7d", nextAttemptAt := 0 }], by decide⟩
  clock := 0
  history := []

def answerOK (_ : Nat) (_ : World) : Except String Response := .ok ⟨200, false⟩

def World.wait (d : Duration) (w : World) : World := { w with clock := w.clock + d }

theorem World.wait_env {d : Duration} (h : 0 ≤ d) (w : World) : machine.env w (w.wait d) :=
  ⟨rfl, rfl, le_add_of_nonneg_right h⟩

/-! ## Rounds -/

/-- What a worker holds: the deliveries that it has claimed and not come to the mark of, the
first of which it is at, those whose mark has not come about, and what it has been told. -/
structure Round where
  hand : List PendingDelivery := []
  lost : List PendingDelivery := []
  sent : Bool := false
  readings : List Time := []
  failure : Option (String × Time) := none

namespace Round

/-- What has been claimed and not been marked. -/
def held (γ : Round) : List PendingDelivery := γ.hand ++ γ.lost

def marked (γ : Round) : Round := { γ with hand := γ.hand.tail, sent := false }

def unmarked (γ : Round) : Round :=
  { γ with hand := γ.hand.tail, lost := γ.hand.head?.toList ++ γ.lost, sent := false }

/-- What a worker leaves that is cut off. -/
def abandon (γ : Round) : Round where
  lost := γ.held

/-- A claim fills the hand. Each mark, whether it succeeds or not, is the last call for a
delivery that changes its row. -/
def next (γ : Round) : {β : Type} → Op β → β → Round
  | _, .now, r => { γ with readings := r :: γ.readings }
  | _, .post _, _ => { γ with sent := true }
  | _, .stmt (.claimPending _), r =>
    match r with
    | .ok pending => { hand := pending, lost := γ.lost }
    | .error _ => γ
  | _, .stmt (.markDelivered _ _ _), r =>
    match r with
    | .ok _ => γ.marked
    | .error _ => γ.unmarked
  | _, .stmt (.markRetry _ _ _ _ _), r =>
    match r with
    | .ok _ => γ.marked
    | .error _ => γ.unmarked
  | _, .stmt (.firstFailureAt subscriptionID), r =>
    match r with
    | .ok (some (some f)) => { γ with failure := some (subscriptionID, f) }
    | _ => { γ with failure := none }
  | _, _, _ => γ

end Round

namespace Service

variable (svc : Service)

/-- The secret before the last rotation, as it is at the time `t`. -/
def oldPlainAt (d : PendingDelivery) (t : Time) : String :=
  match d.oldExpiresAt with
  | none => ""
  | some expiresAt =>
    if d.oldSealed = "" then ""
    else if t < expiresAt then (svc.unsealSecret d.oldSealed).toOption.getD "" else ""

/-- The request is what the delivery's secrets make of it at the time of `now`, the
old one having been looked at at the time of `t`. -/
def Signs (d : PendingDelivery) (t now : Time) (req : Request) : Prop :=
  ∃ secret, svc.unsealSecret d.secret = .ok secret ∧
    req = svc.request { d with secret := secret, oldPlain := svc.oldPlainAt d t } now

/-- The order of the calls of a session. -/
def allows (γ : Round) : {β : Type} → Op β → Prop
  | _, .post req => ∃ d rest, γ.hand = d :: rest ∧ γ.sent = false ∧
      ∃ now earlier, γ.readings = now :: earlier ∧ ∃ t ∈ γ.readings, svc.Signs d t now req
  | _, .stmt (.claimPending _) => γ.hand = []
  | _, .stmt (.markDelivered deliveryID _ _) => ∃ d rest, γ.hand = d :: rest ∧ d.deliveryID = deliveryID
  | _, .stmt (.markRetry deliveryID _ _ _ _) => ∃ d rest, γ.hand = d :: rest ∧ d.deliveryID = deliveryID
  | _, .stmt (.setSubscriptionActive .failures _ id active) => active = false ∧ ∃ f, γ.failure = some (id, f) ∧
      ∃ now ∈ γ.readings, autoDisableWindow ≤ now - f
  | _, .stmt (.rotateSecret _ _ _ oldExpiresAt) => ∃ now earlier, γ.readings = now :: earlier ∧
      oldExpiresAt = now + oldSecretTTL
  | _, _ => True

def rounds : Monitor Op Round where
  allows γ o := svc.allows γ o
  next γ o r := γ.next o r
  rests γ := γ.hand = []
  init := {}
  abort γ := γ.abandon
  init_rests := rfl
  abort_rests _ := rfl

end Service

/-! ## Readings -/

/-- The latest reading comes first, and no reading is ahead of the clock. -/
def Round.Told (clock : Time) (γ : Round) : Prop := (clock :: γ.readings).Pairwise (· ≥ ·)

theorem Round.readings_next {γ : Round} {β : Type} {s : Stmt β} {r : Except Err β} :
    (γ.next (.stmt s) r).readings = γ.readings ∨ (γ.next (.stmt s) r).readings = [] := by
  cases s with
  | claimPending batchSize =>
    cases r with
    | ok pending => exact .inr rfl
    | error err => exact .inl rfl
  | markDelivered deliveryID statusCode now =>
    cases r with
    | ok u => exact .inl rfl
    | error err => exact .inl rfl
  | markRetry deliveryID statusCode errMsg nextAt dead =>
    cases r with
    | ok u => exact .inl rfl
    | error err => exact .inl rfl
  | firstFailureAt sub =>
    match r with
    | .ok (some (some f)) => exact .inl rfl
    | .ok (some none) => exact .inl rfl
    | .ok none => exact .inl rfl
    | .error err => exact .inl rfl
  | _ => exact .inl rfl

section told

variable {w w' : World} {rounds : Nat → Round} {i : Nat} {β : Type} {o : Op β} {r : β} {γ : Round}

theorem Round.told_empty {clock : Time} (h : γ.readings = []) : γ.Told clock := by
  rw [Round.Told, h]
  exact List.pairwise_singleton _ _

theorem Step.clock (h : Step i o w r w') : w'.clock = w.clock := by
  cases o with
  | now => exact congrArg World.clock h.2
  | jitter d => exact congrArg World.clock h.2
  | stmt s =>
    rcases h with ⟨err, -, rfl⟩ | ⟨c, a, db', -, -, rfl⟩
    · rfl
    · rfl
  | _ =>
    cases h
    rfl

theorem Step.told (h : Step i o w r w') (hγ : γ.Told w.clock) : (γ.next o r).Told w'.clock := by
  rw [h.clock]
  cases o with
  | now =>
    obtain ⟨rfl, -⟩ := h
    refine List.pairwise_cons.2 ⟨fun t ht => ?_, hγ⟩
    rcases List.mem_cons.1 ht with rfl | ht
    · exact le_refl _
    · exact (List.pairwise_cons.1 hγ).1 t ht
  | stmt s =>
    rcases @Round.readings_next γ _ s r with hreadings | hreadings
    · rwa [Round.Told, hreadings]
    · exact Round.told_empty hreadings
  | _ => exact hγ

/-- Every call leaves all readings in order. -/
theorem Step.told_update (h : Step i o w r w') (hrounds : ∀ j, (rounds j).Told w.clock) (j : Nat) :
    (Function.update rounds i ((rounds i).next o r) j).Told w'.clock :=
  Function.forall_update_iff rounds (fun _ γ => γ.Told w'.clock) |>.2
    ⟨h.told (hrounds i), fun j _ => h.clock ▸ hrounds j⟩ j

theorem Round.Told.later (h : γ.Told w.clock) (hclock : w.clock ≤ w'.clock) : γ.Told w'.clock := by
  obtain ⟨hle, hsorted⟩ := List.pairwise_cons.1 h
  exact List.pairwise_cons.2 ⟨fun t ht => (hle t ht).trans hclock, hsorted⟩

end told

/-! ## Delivery rounds follow the order -/

section

variable {svc : Service} {γ : Round} {d d' : PendingDelivery} {rest : List PendingDelivery}

/-- The round has come to the deliveries `rest`. -/
def Round.At (rest : List PendingDelivery) (γ : Round) : Prop := γ.hand = rest ∧ γ.sent = false

theorem Round.at_marked (hand : γ.hand = d :: rest) : γ.marked.At rest := ⟨by rw [marked, hand]; rfl, rfl⟩

theorem Round.at_unmarked (hand : γ.hand = d :: rest) : γ.unmarked.At rest := ⟨by rw [unmarked, hand]; rfl, rfl⟩

theorem maybeAutoDisable_follows (h : γ.At rest) :
    (maybeAutoDisable d).Follows svc.rounds (fun γ _ => γ.At rest) γ := by
  refine ⟨trivial, fun r => ?_⟩
  match r with
  | .error err => exact h
  | .ok none => exact h
  | .ok (some none) => exact h
  | .ok (some (some ff)) =>
    refine ⟨trivial, fun now => ?_⟩
    simp only [Script.ret_bind]
    by_cases hwindow : now - ff < autoDisableWindow
    · rw [if_pos hwindow]
      exact h
    · rw [if_neg hwindow]
      refine ⟨⟨rfl, ff, rfl, now, .head _, not_lt.1 hwindow⟩, fun r => ?_⟩
      cases r with
      | error err => exact h
      | ok n => exact h

variable (hand : γ.hand = d :: rest) (hid : d.deliveryID = d'.deliveryID)
include hand hid

theorem markRetry_follows {statusCode : Int} {errMsg : String} {nextAt : Time} {dead : Bool} :
    (markRetry d' statusCode errMsg nextAt dead).Follows svc.rounds (fun γ _ => γ.At rest) γ := by
  have hdone : ∀ γ : Round, γ.At rest →
      (if dead then maybeAutoDisable d' else pure () : Svc Unit).Follows svc.rounds (fun γ _ => γ.At rest) γ := by
    intro γ hγ
    cases dead with
    | true => exact maybeAutoDisable_follows hγ
    | false => exact hγ
  refine ⟨⟨d, rest, hand, hid⟩, fun r => ?_⟩
  cases r with
  | error err => exact hdone _ (Round.at_unmarked hand)
  | ok u =>
    refine ⟨trivial, fun r => ?_⟩
    exact hdone _ (Round.at_marked hand)

theorem markPlanned_follows {now : Time} {statusCode : Int} {errMsg : String} :
    (markPlanned d' now statusCode errMsg).Follows svc.rounds (fun γ _ => γ.At rest) γ :=
  ⟨trivial, fun _ => markRetry_follows hand hid⟩

theorem markDelivered_follows {statusCode : Int} {now : Time} :
    (Repo.markDelivered d'.deliveryID statusCode now >>= fun _ => pure ()).Follows svc.rounds
      (fun γ _ => γ.At rest) γ := by
  refine ⟨⟨d, rest, hand, hid⟩, fun r => ?_⟩
  cases r with
  | error err => exact Round.at_unmarked hand
  | ok u => exact ⟨trivial, fun r => Round.at_marked hand⟩

omit hand hid

/-- The delivery of a claimed row whose secret has been opened. -/
theorem deliverOne_follows (h : γ.At (d :: rest)) {secret : String} (hsecret : svc.unsealSecret d.secret = .ok secret)
    {old : String} (hold : ∀ now, ∃ t ∈ now :: γ.readings, old = svc.oldPlainAt d t) :
    (svc.deliverOne { d with secret := secret, oldPlain := old }).Follows svc.rounds (fun γ _ => γ.At rest) γ := by
  obtain ⟨plain, hplain⟩ : ∃ plain, plain = { d with secret := secret, oldPlain := old } := ⟨_, rfl⟩
  have hid : d.deliveryID = plain.deliveryID := by rw [hplain]
  rw [← hplain]
  refine ⟨trivial, fun now => ⟨trivial, fun valid => ?_⟩⟩
  simp only [Script.ret_bind]
  cases valid with
  | error err => exact markRetry_follows (by exact h.1) hid
  | ok u =>
    refine ⟨trivial, fun created => ?_⟩
    simp only [Script.ret_bind]
    cases created with
    | error err => exact markPlanned_follows (by exact h.1) hid
    | ok u =>
      obtain ⟨t, ht, hold⟩ := hold now
      have hsigns : svc.Signs d t now (svc.request plain now) := ⟨secret, hsecret, by rw [hplain, hold]⟩
      refine ⟨⟨d, rest, h.1, h.2, now, γ.readings, rfl, t, ht, hsigns⟩, fun answer => ?_⟩
      simp only [Script.ret_bind]
      cases answer with
      | error err => exact markPlanned_follows (by exact h.1) hid
      | ok resp =>
        dsimp only
        split
        · exact markDelivered_follows (by exact h.1) hid
        split
        · exact markRetry_follows (by exact h.1) hid
        · exact markPlanned_follows (by exact h.1) hid

theorem oldPlain_follows (h : γ.At (d :: rest)) : (svc.oldPlain d).Follows svc.rounds
    (fun γ old => γ.At (d :: rest) ∧ ∀ now, ∃ t ∈ now :: γ.readings, old = svc.oldPlainAt d t) γ := by
  unfold Service.oldPlain Service.oldPlainAt
  cases hexpires : d.oldExpiresAt with
  | none => exact ⟨h, fun now => ⟨now, .head _, rfl⟩⟩
  | some expiresAt =>
    by_cases hempty : d.oldSealed = ""
    · simp only [hempty, if_true]
      exact ⟨h, fun now => ⟨now, .head _, rfl⟩⟩
    · simp only [hempty, if_false]
      refine ⟨trivial, fun t => ?_⟩
      have hreading : t ∈ (Round.next γ .now t).readings := .head _
      simp only [Script.ret_bind]
      by_cases hlive : t < expiresAt
      · rw [if_pos hlive]
        cases hold : svc.unsealSecret d.oldSealed with
        | ok old => exact ⟨h, fun now => ⟨t, .tail _ hreading, by rw [if_pos hlive]; rfl⟩⟩
        | error err => exact ⟨h, fun now => ⟨t, .tail _ hreading, by rw [if_pos hlive]; rfl⟩⟩
      · rw [if_neg hlive]
        exact ⟨h, fun now => ⟨t, .tail _ hreading, by rw [if_neg hlive]⟩⟩

theorem deliverClaimed_follows (h : γ.At (d :: rest)) :
    (svc.deliverClaimed d).Follows svc.rounds (fun γ _ => γ.At rest) γ := by
  unfold Service.deliverClaimed
  cases hsecret : svc.unsealSecret d.secret with
  | error err => exact ⟨trivial, fun now => markPlanned_follows (by exact h.1) rfl⟩
  | ok secret =>
    refine Script.follows_bind ((oldPlain_follows h).mono fun γ old hold => ?_)
    exact deliverOne_follows hold.1 hsecret hold.2

theorem deliverAll_follows {pending : List PendingDelivery} (h : γ.At pending) :
    (svc.deliverAll pending).Follows svc.rounds (fun γ _ => γ.hand = []) γ := by
  induction pending generalizing γ with
  | nil => exact h.1
  | cons d pending ih => exact Script.follows_bind ((deliverClaimed_follows h).mono fun γ _ hγ => ih hγ)

theorem deliverPending_accepted {batchSize : Nat} : svc.rounds.Accepts (svc.deliverPending batchSize) := by
  intro γ h
  refine ⟨trivial, fun orphaned => ?_⟩
  cases orphaned with
  | error err => exact h
  | ok u =>
    refine ⟨h, fun claimed => ?_⟩
    cases claimed with
    | error err => exact h
    | ok pending => exact deliverAll_follows ⟨rfl, rfl⟩

theorem rotateSecret_accepted {workspaceID id : String} :
    svc.rounds.Accepts (Service.rotateSecret workspaceID id >>= fun _ => pure ()) := by
  intro γ h
  refine ⟨trivial, fun minted => ?_⟩
  cases minted with
  | error err => exact h
  | ok secret =>
    refine ⟨trivial, fun sealed => ?_⟩
    cases sealed with
    | error err => exact h
    | ok sealed =>
      -- the statement takes the expiry from the reading right before it
      refine ⟨trivial, fun now => ⟨⟨now, γ.readings, rfl, rfl⟩, fun rotated => ?_⟩⟩
      cases rotated with
      | error err => exact h
      | ok n =>
        dsimp only [orReturn, Script.ret_bind]
        split
        · exact h
        · exact h

/-! ### The other programs

They issue no call that the order is about, and leave the hand as it is. -/

/-- A call that is always in order and does not touch the hand. -/
def Op.Aside {β : Type} (o : Op β) : Prop :=
  ∀ (svc : Service) (γ : Round), svc.allows γ o ∧ ∀ r, (γ.next o r).hand = γ.hand

theorem accepts_aside {m : Svc Unit} (h : m.Calls Op.Aside) : svc.rounds.Accepts m := by
  intro γ hγ
  induction m generalizing γ with
  | ret a => exact hγ
  | call o k ih =>
    obtain ⟨ho, hk⟩ := h
    exact ⟨(ho svc γ).1, fun r => ih r (hk r) _ (((ho svc γ).2 r).trans hγ)⟩

/-- The call is none of a delivery, and none that the order says more about. -/
def Op.Outside : {β : Type} → Op β → Prop
  | _, .post _ => False
  | _, .stmt (.claimPending _) => False
  | _, .stmt (.markDelivered _ _ _) => False
  | _, .stmt (.markRetry _ _ _ _ _) => False
  | _, .stmt (.setSubscriptionActive .failures _ _ _) => False
  | _, .stmt (.rotateSecret _ _ _ _) => False
  | _, _ => True

theorem Op.Outside.aside {β : Type} {o : Op β} (h : o.Outside) : o.Aside := by
  intro svc γ
  cases o with
  | post req => exact h.elim
  | stmt s =>
    cases s with
    | claimPending batchSize => exact h.elim
    | markDelivered deliveryID statusCode now => exact h.elim
    | markRetry deliveryID statusCode errMsg nextAt dead => exact h.elim
    | rotateSecret workspaceID id newSealed oldExpiresAt => exact h.elim
    | setSubscriptionActive cause workspaceID id active =>
      cases cause with
      | failures => exact h.elim
      | request => exact ⟨trivial, fun _ => rfl⟩
    | firstFailureAt sub =>
      refine ⟨trivial, fun r => ?_⟩
      match r with
      | .error err => rfl
      | .ok none => rfl
      | .ok (some none) => rfl
      | .ok (some (some f)) => rfl
    | _ => exact ⟨trivial, fun _ => rfl⟩
  | _ => exact ⟨trivial, fun _ => rfl⟩

theorem calls_discard {α : Type} {m : Svc α} (h : m.Calls Op.Outside) :
    (m >>= fun _ => pure ()).Calls Op.Outside := h.bind fun _ => trivial

theorem affecting_outside {s : Stmt Nat} (h : Op.Outside (.stmt s)) : (Repo.affecting s).Calls Op.Outside := by
  refine ⟨h, fun r => ?_⟩
  cases r with
  | error err => trivial
  | ok n => trivial

theorem redeliver_outside {workspaceID : Option String} {deliveryID : String} {rounds : Nat} :
    (Repo.redeliver workspaceID deliveryID rounds).Calls Op.Outside := by
  induction rounds with
  | zero => trivial
  | succ rounds ih =>
    refine ⟨trivial, fun inserted => ?_⟩
    match inserted with
    | .error err => trivial
    | .ok (some row) => trivial
    | .ok none =>
      refine ⟨trivial, fun source => ?_⟩
      match source with
      | .error err => trivial
      | .ok none => trivial
      | .ok (some (sub, eventID)) =>
        refine ⟨trivial, fun waiting => ?_⟩
        match waiting with
        | .error err => trivial
        | .ok (some row) => trivial
        | .ok none => exact ih

/-- What a session runs delivers, rotates a secret, or issues none of these calls. -/
theorem Service.Program.outside {m : Svc Unit} (h : svc.Program m) : (∃ batchSize, m = svc.deliverPending batchSize)
    ∨ (∃ workspaceID id, m = (Service.rotateSecret workspaceID id >>= fun _ => pure ())) ∨ m.Calls Op.Outside := by
  cases h with
  | deliverPending batchSize => exact .inl ⟨batchSize, rfl⟩
  | rotateSecret workspaceID id => exact .inr (.inl ⟨workspaceID, id, rfl⟩)
  | createSubscription workspaceID url eventTypes =>
    refine .inr (.inr ⟨trivial, fun valid => ?_⟩)
    cases valid with
    | error err => trivial
    | ok u =>
      dsimp only [Script.ret_bind]
      split
      · trivial
      refine ⟨trivial, fun minted => ?_⟩
      cases minted with
      | error err => trivial
      | ok secret =>
        refine ⟨trivial, fun sealed => ?_⟩
        cases sealed with
        | error err => trivial
        | ok sealed =>
          refine ⟨trivial, fun created => ?_⟩
          cases created with
          | error err => trivial
          | ok sub => trivial
  | deleteSubscription workspaceID id => exact .inr (.inr (calls_discard (affecting_outside trivial)))
  | setSubscriptionActive workspaceID id active => exact .inr (.inr (calls_discard (affecting_outside trivial)))
  | ping workspaceID id =>
    refine .inr (.inr (calls_discard ⟨trivial, fun found => ?_⟩))
    match found with
    | .error err => trivial
    | .ok none => trivial
    | .ok (some sub) =>
      exact Script.Calls.ite (fun _ => trivial) fun _ => ⟨trivial, fun eventID => affecting_outside trivial⟩
  | emit workspaceID event =>
    refine .inr (.inr (calls_discard ?_))
    unfold Service.emit
    split
    · trivial
    split
    · trivial
    · exact ⟨trivial, fun r => trivial⟩
  | redeliver workspaceID deliveryID => exact .inr (.inr (calls_discard redeliver_outside))

theorem Service.Program.accepted {m : Svc Unit} (h : svc.Program m) : svc.rounds.Accepts m := by
  rcases h.outside with ⟨batchSize, rfl⟩ | ⟨workspaceID, id, rfl⟩ | houtside
  · exact deliverPending_accepted
  · exact rotateSecret_accepted
  · exact accepts_aside (houtside.mono fun _ => Op.Outside.aside)

end

end Ploykit.Webhooks

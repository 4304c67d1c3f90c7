import Ploykit.Lib.Schedule
import Ploykit.Webhooks.Machine

/-!
# Exclusive claims

A claim commits before the delivery is sent, and leaves the row as due as it was. What
keeps a second worker from it is only that the row is not due when that worker claims.
-/

namespace Ploykit.Webhooks

open Lib

/-! ## Attempts -/

namespace Event

def marks (deliveryID : String) : Event → Bool
  | .marked id _ => id = deliveryID
  | _ => false

def claims (deliveryID : String) : Event → Bool
  | .claimed _ d => d.deliveryID = deliveryID
  | _ => false

def posts (deliveryID : String) : Event → Bool
  | .posted _ req => req.deliveryID = deliveryID
  | _ => false

def crashes : Event → Bool
  | .crashed _ => true
  | _ => false

/-- The event is no part of an attempt. -/
def Quiet (e : Event) : Prop := ∀ id, e.marks id = false ∧ e.claims id = false ∧ e.posts id = false

end Event

/-- What has happened since the delivery was marked last. -/
def sinceMark (deliveryID : String) (h : History) : History := h.takeWhile fun e => !e.2.marks deliveryID

def claimsSinceMark (deliveryID : String) (h : History) : Nat :=
  (sinceMark deliveryID h).countP fun e => e.2.claims deliveryID

def postsSinceMark (deliveryID : String) (h : History) : Nat :=
  (sinceMark deliveryID h).countP fun e => e.2.posts deliveryID

/-- Between two marks a delivery is claimed at most once, and sent at most once. -/
def Exclusive (h : History) : Prop := ∀ id, claimsSinceMark id h ≤ 1 ∧ postsSinceMark id h ≤ 1

section attempts

variable {w : World} {events : List Event} {id : String}

theorem sinceMark_record (h : ∀ e ∈ events, e.marks id = false) :
    sinceMark id (w.record events).history = events.map (fun e => (w.clock, e)) ++ sinceMark id w.history := by
  refine List.takeWhile_append_of_pos fun e he => ?_
  obtain ⟨e', he', rfl⟩ := List.mem_map.1 he
  simp [h e' he']

theorem claimsSinceMark_record (h : ∀ e ∈ events, e.marks id = false) :
    claimsSinceMark id (w.record events).history = events.countP (·.claims id) + claimsSinceMark id w.history := by
  rw [claimsSinceMark, sinceMark_record h, List.countP_append, List.countP_map]
  rfl

theorem postsSinceMark_record (h : ∀ e ∈ events, e.marks id = false) :
    postsSinceMark id (w.record events).history = events.countP (·.posts id) + postsSinceMark id w.history := by
  rw [postsSinceMark, sinceMark_record h, List.countP_append, List.countP_map]
  rfl

theorem sinceMark_marked {status : DeliveryStatus} : sinceMark id (w.record [.marked id status]).history = [] :=
  List.takeWhile_cons_of_neg (by simp [Event.marks])

theorem quiet_claims (h : ∀ e ∈ events, e.Quiet) :
    claimsSinceMark id (w.record events).history = claimsSinceMark id w.history := by
  have hnone : events.countP (·.claims id) = 0 := List.countP_eq_zero.2 fun e he => by simp [(h e he id).2.1]
  rw [claimsSinceMark_record fun e he => (h e he id).1, hnone, Nat.zero_add]

theorem quiet_posts (h : ∀ e ∈ events, e.Quiet) :
    postsSinceMark id (w.record events).history = postsSinceMark id w.history := by
  have hnone : events.countP (·.posts id) = 0 := List.countP_eq_zero.2 fun e he => by simp [(h e he id).2.2]
  rw [postsSinceMark_record fun e he => (h e he id).1, hnone, Nat.zero_add]

/-! ### The events of claims and marks -/

variable {i : Nat} {pending : List PendingDelivery}

theorem claimed_marks (id : String) : ∀ e ∈ pending.map (Event.claimed i), e.marks id = false := by
  intro e he
  obtain ⟨d, -, rfl⟩ := List.mem_map.1 he
  rfl

theorem claimed_posts : (pending.map (Event.claimed i)).countP (·.posts id) = 0 := by
  refine List.countP_eq_zero.2 fun e he => ?_
  obtain ⟨d, -, rfl⟩ := List.mem_map.1 he
  exact Bool.false_ne_true

theorem claimed_claims : (pending.map (Event.claimed i)).countP (·.claims id)
    = (pending.map PendingDelivery.deliveryID).count id := by
  rw [List.countP_map, List.count, List.countP_map]
  exact List.countP_congr fun d _ => by simp [Event.claims]

theorem marked_marks {deliveryID : String} {status : DeliveryStatus} (h : deliveryID ≠ id) :
    ∀ e ∈ [Event.marked deliveryID status], e.marks id = false := by
  intro e he
  cases List.mem_singleton.1 he
  simp [Event.marks, h]

end attempts

/-! ## What a claim takes -/

theorem pendingDelivery_id {db : Db} {row : DeliveryRow} {d : PendingDelivery} (h : db.pendingDelivery row = some d) :
    d.deliveryID = row.id := by
  obtain ⟨s, -, rfl⟩ := Option.map_eq_some_iff.1 h
  rfl

theorem claimed_sublist {db : Db} {c : Choice} {now : Time} {batchSize : Nat} :
    ((db.claimed c now batchSize).map DeliveryRow.id).Nodup ∧
      ∀ row ∈ db.claimed c now batchSize, db.delivery row.id = some row ∧ db.due now row := by
  unfold Db.claimed
  generalize hdue : (db.deliveries.rows.filter fun d => db.due now d ∧ ¬ c.skipped d.id) = due
  have hsub : due.Sublist db.deliveries.rows := hdue ▸ List.filter_sublist
  have hperm := List.perm_insertionSort (fun a b : DeliveryRow => a.nextAttemptAt ≤ b.nextAttemptAt) due
  have htake := List.take_sublist batchSize (due.insertionSort fun a b => a.nextAttemptAt ≤ b.nextAttemptAt)
  constructor
  · have hnodup : (due.map DeliveryRow.id).Nodup := db.deliveries.nodup.sublist (hsub.map _)
    exact ((hperm.map _).nodup_iff.2 hnodup).sublist (htake.map _)
  · intro row hrow
    have hmem : row ∈ due := hperm.mem_iff.1 (htake.subset hrow)
    refine ⟨Keyed.get_of_mem (hsub.subset hmem), ?_⟩
    rw [← hdue, List.mem_filter] at hmem
    simp only [decide_eq_true_eq] at hmem
    exact hmem.2.1

/-- The claimed deliveries are those of different rows, all of which are due. -/
theorem claimPending_due {c : Choice} {now : Time} {db db' : Db} {batchSize : Nat} {pending : List PendingDelivery}
    (h : (Stmt.claimPending batchSize).run c now db = .ok (pending, db')) :
    (pending.map PendingDelivery.deliveryID).Nodup ∧
      ∀ d ∈ pending, ∃ row, db.delivery d.deliveryID = some row ∧ db.due now row := by
  cases h
  have hperm := c.order_perm ((db.claimed c now batchSize).filterMap db.pendingDelivery)
  obtain ⟨hnodup, hrows⟩ := @claimed_sublist db c now batchSize
  constructor
  · rw [(hperm.map _).nodup_iff]
    generalize db.claimed c now batchSize = rows at hnodup
    have hids : ((rows.filterMap db.pendingDelivery).map PendingDelivery.deliveryID).Sublist (rows.map DeliveryRow.id) := by
      induction rows with
      | nil => exact .slnil
      | cons row rows ih =>
        have ih := ih (List.nodup_cons.1 hnodup).2
        cases hd : db.pendingDelivery row with
        | none => simpa [hd] using ih.cons row.id
        | some d => simpa [hd, pendingDelivery_id hd] using ih
    exact hnodup.sublist hids
  · intro d hd
    obtain ⟨row, hrow, hrowd⟩ := List.mem_filterMap.1 (hperm.mem_iff.1 hd)
    exact ⟨row, pendingDelivery_id hrowd ▸ hrows row hrow⟩

/-! ## Who holds a delivery -/

namespace Round

/-- The attempt of the delivery has been sent, and its mark has not come about. -/
def Underway (γ : Round) (deliveryID : String) : Prop :=
  (∃ d ∈ γ.lost, d.deliveryID = deliveryID) ∨ γ.sent = true ∧ ∃ d ∈ γ.hand.head?, d.deliveryID = deliveryID

variable {γ : Round} {id : String}

theorem Underway.held (h : γ.Underway id) : ∃ d ∈ γ.held, d.deliveryID = id := by
  rcases h with ⟨d, hd, hid⟩ | ⟨-, d, hd, hid⟩
  · exact ⟨d, List.mem_append_right _ hd, hid⟩
  · exact ⟨d, List.mem_append_left _ (List.mem_of_mem_head? hd), hid⟩

theorem held_unmarked : γ.unmarked.held.Perm γ.held := by
  unfold held unmarked
  cases γ.hand with
  | nil => exact .refl _
  | cons d rest => exact List.perm_middle

theorem Underway.unmarked (h : γ.Underway id) : γ.unmarked.Underway id := by
  rcases h with ⟨d, hd, hid⟩ | ⟨-, d, hd, hid⟩
  · exact .inl ⟨d, List.mem_append_right _ hd, hid⟩
  · exact .inl ⟨d, List.mem_append_left _ (Option.mem_toList.2 hd), hid⟩

theorem Underway.abandon (h : γ.Underway id) : γ.abandon.Underway id := .inl h.held

end Round

/-- The workers hold each delivery at most once, and every delivery whose attempt is open. -/
structure Held (w : World) (rounds : Nat → Round) : Prop where
  nodup : ∀ i, ((rounds i).held.map PendingDelivery.deliveryID).Nodup
  apart : ∀ i j d e, d ∈ (rounds i).held → e ∈ (rounds j).held → d.deliveryID = e.deliveryID → i = j
  claimed : ∀ id, 0 < claimsSinceMark id w.history → ∃ i, ∃ d ∈ (rounds i).held, d.deliveryID = id
  posted : ∀ id, 0 < postsSinceMark id w.history → ∃ i, (rounds i).Underway id
  exclusive : Exclusive w.history

/-- No delivery that a worker holds is due when deliveries are claimed. -/
def HeldNotDue (_ : Nat) : {β : Type} → Op β → World × (Nat → Round) → Prop
  | _, .stmt (.claimPending _), x => ∀ i, ∀ d ∈ (x.2 i).held, ∀ row ∈ x.1.db.delivery d.deliveryID,
      x.1.db.due x.1.clock row = false
  | _, _, _ => True

namespace Held

variable {w w' : World} {rounds : Nat → Round} {i : Nat} {γ : Round}

/-- Workers that hold what they held, over a history with nothing new about attempts. -/
theorem regroup (h : Held w rounds) (hheld : γ.held.Perm (rounds i).held)
    (hunder : ∀ id, (rounds i).Underway id → γ.Underway id) {events : List Event} (hquiet : ∀ e ∈ events, e.Quiet)
    (hw : w'.history = (w.record events).history) : Held w' (Function.update rounds i γ) := by
  have hperm : ∀ j, (Function.update rounds i γ j).held.Perm (rounds j).held :=
    Function.forall_update_iff rounds (fun j δ => δ.held.Perm (rounds j).held) |>.2 ⟨hheld, fun j _ => .refl _⟩
  have hkeep : ∀ j, ∀ id, (rounds j).Underway id → (Function.update rounds i γ j).Underway id :=
    Function.forall_update_iff rounds (fun j δ => ∀ id, (rounds j).Underway id → δ.Underway id) |>.2
      ⟨hunder, fun j _ id => fun hid => hid⟩
  constructor
  · intro j
    exact ((hperm j).map _).nodup_iff.2 (h.nodup j)
  · intro j k d e hd he hid
    exact h.apart j k d e ((hperm j).mem_iff.1 hd) ((hperm k).mem_iff.1 he) hid
  · intro id hid
    rw [hw, quiet_claims hquiet] at hid
    obtain ⟨j, d, hd, hid⟩ := h.claimed id hid
    exact ⟨j, d, (hperm j).mem_iff.2 hd, hid⟩
  · intro id hid
    rw [hw, quiet_posts hquiet] at hid
    obtain ⟨j, hj⟩ := h.posted id hid
    exact ⟨j, hkeep j id hj⟩
  · intro id
    rw [hw, quiet_claims hquiet, quiet_posts hquiet]
    exact h.exclusive id

/-- A call that is no part of an attempt. -/
theorem quiet (h : Held w rounds) (hhand : γ.hand = (rounds i).hand) (hlost : γ.lost = (rounds i).lost)
    (hsent : γ.sent = (rounds i).sent) {events : List Event} (hquiet : ∀ e ∈ events, e.Quiet)
    (hw : w'.history = (w.record events).history) : Held w' (Function.update rounds i γ) := by
  refine h.regroup (List.Perm.of_eq (by rw [Round.held, Round.held, hhand, hlost])) (fun id hid => ?_) hquiet hw
  rwa [Round.Underway, hhand, hlost, hsent]

/-- A claim by a worker with empty hands, of rows that nobody holds. -/
theorem claim (h : Held w rounds) (hhand : (rounds i).hand = []) {pending : List PendingDelivery}
    (hnodup : (pending.map PendingDelivery.deliveryID).Nodup)
    (hfree : ∀ d ∈ pending, ∀ j, ∀ e ∈ (rounds j).held, d.deliveryID ≠ e.deliveryID)
    (hw : w'.history = (w.record (pending.map (.claimed i))).history) :
    Held w' (Function.update rounds i { hand := pending, lost := (rounds i).lost }) := by
  have hlost : (rounds i).held = (rounds i).lost := by rw [Round.held, hhand]; rfl
  obtain ⟨γ, hγ⟩ : ∃ γ : Round, γ = { hand := pending, lost := (rounds i).lost } := ⟨_, rfl⟩
  have hheld : γ.held = pending ++ (rounds i).held := by rw [hγ, hlost]; rfl
  rw [← hγ]
  -- a delivery is held by the one that claims it, or by the one that has held it before
  have hmem : ∀ j d, d ∈ (Function.update rounds i γ j).held → (j = i ∧ d ∈ pending) ∨ d ∈ (rounds j).held := by
    intro j d hd
    by_cases hj : j = i
    · subst hj
      rw [Function.update_self, hheld] at hd
      exact (List.mem_append.1 hd).imp_left fun hd => ⟨rfl, hd⟩
    · rw [Function.update_of_ne hj] at hd
      exact .inr hd
  have hkeep : ∀ j d, d ∈ (rounds j).held → d ∈ (Function.update rounds i γ j).held := by
    intro j d hd
    by_cases hj : j = i
    · subst hj
      rw [Function.update_self, hheld]
      exact List.mem_append_right _ hd
    · rwa [Function.update_of_ne hj]
  constructor
  · refine Function.forall_update_iff rounds (fun j δ => (δ.held.map PendingDelivery.deliveryID).Nodup) |>.2
      ⟨?_, fun j _ => h.nodup j⟩
    rw [hheld, List.map_append]
    refine List.Nodup.append hnodup (h.nodup i) fun id hid hid' => ?_
    obtain ⟨d, hd, rfl⟩ := List.mem_map.1 hid
    obtain ⟨e, he, hde⟩ := List.mem_map.1 hid'
    exact hfree d hd i e he hde.symm
  · intro j k d e hd he hid
    rcases hmem j d hd with ⟨hj, hd⟩ | hd
    · rcases hmem k e he with ⟨hk, -⟩ | he
      · rw [hj, hk]
      · exact (hfree d hd k e he hid).elim
    · rcases hmem k e he with ⟨hk, he⟩ | he
      · exact (hfree e he j d hd hid.symm).elim
      · exact h.apart j k d e hd he hid
  · intro id hid
    by_cases hid' : id ∈ pending.map PendingDelivery.deliveryID
    · obtain ⟨d, hd, rfl⟩ := List.mem_map.1 hid'
      refine ⟨i, d, ?_, rfl⟩
      rw [Function.update_self, hheld]
      exact List.mem_append_left _ hd
    · rw [hw, claimsSinceMark_record (claimed_marks id), claimed_claims, List.count_eq_zero.2 hid', Nat.zero_add] at hid
      obtain ⟨j, d, hd, hid⟩ := h.claimed id hid
      exact ⟨j, d, hkeep j d hd, hid⟩
  · intro id hid
    rw [hw, postsSinceMark_record (claimed_marks id), claimed_posts, Nat.zero_add] at hid
    obtain ⟨j, hj⟩ := h.posted id hid
    refine ⟨j, ?_⟩
    by_cases hji : j = i
    · subst hji
      rcases hj with hj | ⟨-, d, hd, -⟩
      · rw [Function.update_self, hγ]
        exact .inl hj
      · rw [hhand] at hd
        cases hd
    · rwa [Function.update_of_ne hji]
  · intro id
    rw [hw, claimsSinceMark_record (claimed_marks id), postsSinceMark_record (claimed_marks id), claimed_claims, claimed_posts, Nat.zero_add]
    refine ⟨?_, (h.exclusive id).2⟩
    by_cases hid' : id ∈ pending.map PendingDelivery.deliveryID
    · -- nobody has claimed it since its last mark
      have hnone : claimsSinceMark id w.history = 0 := by
        refine Nat.eq_zero_of_not_pos fun hpos => ?_
        obtain ⟨d, hd, rfl⟩ := List.mem_map.1 hid'
        obtain ⟨j, e, he, hde⟩ := h.claimed _ hpos
        exact hfree d hd j e he hde.symm
      rw [hnone, Nat.add_zero]
      exact List.nodup_iff_count_le_one.1 hnodup id
    · rw [List.count_eq_zero.2 hid', Nat.zero_add]
      exact (h.exclusive id).1

/-- The delivery that a worker is at is held by no other one, and by this one only once. -/
theorem head_underway (h : Held w rounds) {d : PendingDelivery} {rest : List PendingDelivery}
    (hhand : (rounds i).hand = d :: rest) (hsent : (rounds i).sent = false) (j : Nat) :
    ¬ (rounds j).Underway d.deliveryID := by
  intro hj
  have hd : d ∈ (rounds i).held := by simp [Round.held, hhand]
  obtain ⟨e, he, hde⟩ := hj.held
  have hji := h.apart j i e d he hd hde
  subst hji
  rcases hj with ⟨e, he, hde⟩ | ⟨hsent', -⟩
  · have hnodup := h.nodup j
    rw [Round.held, hhand, List.map_append, List.map_cons] at hnodup
    have hdisjoint := (List.nodup_append'.1 hnodup).2.2
    exact hdisjoint (List.mem_cons_self ..) (hde ▸ List.mem_map_of_mem he)
  · rw [hsent] at hsent'
    cases hsent'

/-- The delivery that a worker is at is sent. -/
theorem post (h : Held w rounds) {d : PendingDelivery} {rest : List PendingDelivery}
    (hhand : (rounds i).hand = d :: rest) (hsent : (rounds i).sent = false) {req : Request}
    (hreq : req.deliveryID = d.deliveryID) {answered : List Event} (hquiet : ∀ e ∈ answered, e.Quiet)
    (hw : w'.history = (w.record (answered ++ [.posted i req])).history) :
    Held w' (Function.update rounds i { rounds i with sent := true }) := by
  have hmarks : ∀ id, ∀ e ∈ answered ++ [Event.posted i req], e.marks id = false := by
    intro id e he
    rcases List.mem_append.1 he with he | he
    · exact (hquiet e he id).1
    · cases List.mem_singleton.1 he
      rfl
  have hclaims : ∀ id, (answered ++ [Event.posted i req]).countP (·.claims id) = 0 := by
    intro id
    refine List.countP_eq_zero.2 fun e he => ?_
    rcases List.mem_append.1 he with he | he
    · simp [(hquiet e he id).2.1]
    · cases List.mem_singleton.1 he
      exact Bool.false_ne_true
  have hposts : ∀ id, (answered ++ [Event.posted i req]).countP (·.posts id) = if d.deliveryID = id then 1 else 0 := by
    intro id
    have hnone : answered.countP (·.posts id) = 0 := List.countP_eq_zero.2 fun e he => by simp [(hquiet e he id).2.2]
    rw [List.countP_append, hnone, Nat.zero_add, List.countP_singleton, ← hreq]
    simp [Event.posts]
  -- the sent delivery was not under way, the others stay so
  have hnone : postsSinceMark d.deliveryID w.history = 0 := by
    refine Nat.eq_zero_of_not_pos fun hpos => ?_
    obtain ⟨j, hj⟩ := h.posted _ hpos
    exact h.head_underway hhand hsent j hj
  have hheld : ∀ j, (Function.update rounds i { rounds i with sent := true } j).held = (rounds j).held :=
    Function.forall_update_iff rounds (fun j δ => δ.held = (rounds j).held) |>.2 ⟨rfl, fun j _ => rfl⟩
  constructor
  · intro j
    rw [hheld]
    exact h.nodup j
  · intro j k e f he hf hid
    rw [hheld] at he hf
    exact h.apart j k e f he hf hid
  · intro id hid
    rw [hw, claimsSinceMark_record (hmarks id), hclaims, Nat.zero_add] at hid
    obtain ⟨j, e, he, hid⟩ := h.claimed id hid
    exact ⟨j, e, by rwa [hheld], hid⟩
  · intro id hid
    by_cases hd : d.deliveryID = id
    · refine ⟨i, .inr ⟨by rw [Function.update_self], d, ?_, hd⟩⟩
      rw [Function.update_self, hhand]
      rfl
    · rw [hw, postsSinceMark_record (hmarks id), hposts, if_neg hd, Nat.zero_add] at hid
      obtain ⟨j, hj⟩ := h.posted id hid
      refine ⟨j, ?_⟩
      by_cases hji : j = i
      · subst hji
        rw [Function.update_self]
        rcases hj with hj | ⟨-, hj⟩
        · exact .inl hj
        · exact .inr ⟨rfl, hj⟩
      · rwa [Function.update_of_ne hji]
  · intro id
    rw [hw, claimsSinceMark_record (hmarks id), postsSinceMark_record (hmarks id), hclaims, hposts, Nat.zero_add]
    refine ⟨(h.exclusive id).1, ?_⟩
    by_cases hd : d.deliveryID = id
    · rw [if_pos hd, ← hd, hnone]
    · rw [if_neg hd, Nat.zero_add]
      exact (h.exclusive id).2

/-- The delivery that a worker is at is marked, which ends the attempt. -/
theorem mark (h : Held w rounds) {d : PendingDelivery} {rest : List PendingDelivery}
    (hhand : (rounds i).hand = d :: rest) {status : DeliveryStatus}
    (hw : w'.history = (w.record [.marked d.deliveryID status]).history) :
    Held w' (Function.update rounds i (rounds i).marked) := by
  have hheld : (rounds i).held = d :: (rounds i).marked.held := by rw [Round.held, Round.held, Round.marked, hhand]; rfl
  have hsub : ∀ j, (Function.update rounds i (rounds i).marked j).held.Sublist (rounds j).held :=
    Function.forall_update_iff rounds (fun j δ => δ.held.Sublist (rounds j).held) |>.2
      ⟨hheld ▸ List.sublist_cons_self .., fun j _ => .refl _⟩
  constructor
  · intro j
    exact (h.nodup j).sublist ((hsub j).map _)
  · intro j k e f he hf hid
    exact h.apart j k e f ((hsub j).subset he) ((hsub k).subset hf) hid
  · intro id hid
    by_cases hd : d.deliveryID = id
    · rw [hw, ← hd, claimsSinceMark, sinceMark_marked] at hid
      cases hid
    · rw [hw, claimsSinceMark_record (marked_marks hd)] at hid
      obtain ⟨j, e, he, heid⟩ := h.claimed id (by simpa [Event.claims] using hid)
      refine ⟨j, e, ?_, heid⟩
      by_cases hji : j = i
      · subst hji
        rw [Function.update_self]
        rw [hheld] at he
        rcases List.mem_cons.1 he with rfl | he
        · exact (hd heid).elim
        · exact he
      · rwa [Function.update_of_ne hji]
  · intro id hid
    by_cases hd : d.deliveryID = id
    · rw [hw, ← hd, postsSinceMark, sinceMark_marked] at hid
      cases hid
    · rw [hw, postsSinceMark_record (marked_marks hd)] at hid
      obtain ⟨j, hj⟩ := h.posted id (by simpa [Event.posts] using hid)
      refine ⟨j, ?_⟩
      by_cases hji : j = i
      · subst hji
        rw [Function.update_self]
        rcases hj with hj | ⟨-, e, he, hid⟩
        · exact .inl hj
        · rw [hhand] at he
          cases he
          exact (hd hid).elim
      · rwa [Function.update_of_ne hji]
  · intro id
    by_cases hd : d.deliveryID = id
    · rw [hw, ← hd, claimsSinceMark, postsSinceMark, sinceMark_marked]
      exact ⟨Nat.zero_le 1, Nat.zero_le 1⟩
    · rw [hw, claimsSinceMark_record (marked_marks hd), postsSinceMark_record (marked_marks hd)]
      simpa [Event.claims, Event.posts] using h.exclusive id

end Held

/-! ## Every call keeps it -/

/-- The statement belongs to an attempt. -/
def Stmt.attempts : {β : Type} → Stmt β → Bool
  | _, .claimPending _ => true
  | _, .markDelivered _ _ _ => true
  | _, .markRetry _ _ _ _ _ => true
  | _, _ => false

theorem Stmt.quiet_events {β : Type} {s : Stmt β} (hs : s.attempts = false) {i : Nat} {db : Db} {a : β} :
    ∀ e ∈ s.events i db a, e.Quiet := by
  intro e he id
  cases s with
  | claimPending batchSize => cases hs
  | markDelivered deliveryID statusCode now => cases hs
  | markRetry deliveryID statusCode errMsg nextAt dead => cases hs
  | clearFirstFailure deliveryID =>
    obtain ⟨sub, -, rfl⟩ := List.mem_map.1 he
    exact ⟨rfl, rfl, rfl⟩
  | setFirstFailure deliveryID =>
    simp only [Stmt.events] at he
    split at he
    · cases he
    split at he
    · cases List.mem_singleton.1 he
      exact ⟨rfl, rfl, rfl⟩
    · cases he
  | setSubscriptionActive cause workspaceID sub active =>
    simp only [Stmt.events] at he
    split at he
    · cases he
    split at he
    · cases List.mem_singleton.1 he
      exact ⟨rfl, rfl, rfl⟩
    · cases List.mem_singleton.1 he
      exact ⟨rfl, rfl, rfl⟩
  | rotateSecret workspaceID sub newSealed oldExpiresAt =>
    simp only [Stmt.events] at he
    split at he
    · cases he
    · obtain ⟨row, -, rfl⟩ := List.mem_map.1 he
      exact ⟨rfl, rfl, rfl⟩
  | createSubscription workspaceID eventTypes url secret =>
    cases List.mem_singleton.1 he
    exact ⟨rfl, rfl, rfl⟩
  | _ => cases he

theorem Round.next_quiet {γ : Round} {β : Type} {s : Stmt β} (hs : s.attempts = false) {r : Except Err β} :
    (γ.next (.stmt s) r).hand = γ.hand ∧ (γ.next (.stmt s) r).lost = γ.lost ∧ (γ.next (.stmt s) r).sent = γ.sent := by
  cases s with
  | claimPending batchSize => cases hs
  | markDelivered deliveryID statusCode now => cases hs
  | markRetry deliveryID statusCode errMsg nextAt dead => cases hs
  | firstFailureAt sub =>
    match r with
    | .ok (some (some f)) => exact ⟨rfl, rfl, rfl⟩
    | .ok (some none) => exact ⟨rfl, rfl, rfl⟩
    | .ok none => exact ⟨rfl, rfl, rfl⟩
    | .error err => exact ⟨rfl, rfl, rfl⟩
  | _ => exact ⟨rfl, rfl, rfl⟩

/-- What a worker holds is the same after a statement that has failed. -/
theorem Round.next_error {γ : Round} {β : Type} {s : Stmt β} {err : Err} :
    (γ.next (.stmt s) (.error err)).held.Perm γ.held ∧
      ∀ id, γ.Underway id → (γ.next (.stmt s) (.error err)).Underway id := by
  cases hs : s.attempts with
  | false =>
    obtain ⟨hhand, hlost, hsent⟩ := γ.next_quiet hs (r := .error err)
    refine ⟨List.Perm.of_eq (by rw [Round.held, Round.held, hhand, hlost]), fun id hid => ?_⟩
    rwa [Round.Underway, hhand, hlost, hsent]
  | true =>
    cases s with
    | claimPending batchSize => exact ⟨.refl _, fun id => fun hid => hid⟩
    | markDelivered deliveryID statusCode now => exact ⟨Round.held_unmarked, fun id => Round.Underway.unmarked⟩
    | markRetry deliveryID statusCode errMsg nextAt dead => exact ⟨Round.held_unmarked, fun id => Round.Underway.unmarked⟩
    | _ => cases hs

theorem postEvents_split {i : Nat} {db : Db} {req : Request} {r : Except String Response} :
    ∃ answered : List Event, (∀ e ∈ answered, e.Quiet) ∧ postEvents i db req r = answered ++ [.posted i req] := by
  cases r with
  | error err => exact ⟨[], fun e he => (List.not_mem_nil he).elim, rfl⟩
  | ok resp =>
    refine ⟨_, fun e he => ?_, rfl⟩
    split at he
    · obtain ⟨sub, -, rfl⟩ := List.mem_map.1 he
      exact fun id => ⟨rfl, rfl, rfl⟩
    · cases he

theorem Held.exec {svc : Service} {w w' : World} {rounds : Nat → Round} {i : Nat} {β : Type} {o : Op β} {r : β}
    (h : Held w rounds) (hallows : svc.allows (rounds i) o) (hdue : HeldNotDue i o (w, rounds))
    (hstep : Step i o w r w') : Held w' (Function.update rounds i ((rounds i).next o r)) := by
  have hnone : ∀ e ∈ ([] : List Event), e.Quiet := fun e he => (List.not_mem_nil he).elim
  cases o with
  | now =>
    obtain ⟨-, rfl⟩ := hstep
    exact h.quiet rfl rfl rfl hnone rfl
  | jitter d =>
    obtain ⟨-, rfl⟩ := hstep
    exact h.quiet rfl rfl rfl hnone rfl
  | post req =>
    obtain ⟨d, rest, hhand, hsent, now, earlier, -, t, -, secret, -, hreq⟩ := hallows
    obtain ⟨answered, hquiet, hevents⟩ := @postEvents_split i w.db req r
    cases hstep
    have hid : req.deliveryID = d.deliveryID := by rw [hreq]; rfl
    exact h.post hhand hsent hid hquiet (by rw [hevents])
  | stmt s =>
    rcases hstep with ⟨err, rfl, rfl⟩ | ⟨c, a, db', hrun, rfl, rfl⟩
    · exact h.regroup Round.next_error.1 Round.next_error.2 hnone rfl
    cases hs : s.attempts with
    | false =>
      obtain ⟨hhand, hlost, hsent⟩ := (rounds i).next_quiet hs (r := .ok a)
      exact h.quiet hhand hlost hsent (Stmt.quiet_events hs) rfl
    | true =>
      cases s with
      | claimPending batchSize =>
        obtain ⟨hnodup, hrows⟩ := claimPending_due hrun
        refine h.claim hallows hnodup (fun d hd j e he hid => ?_) rfl
        obtain ⟨row, hrow, hrowdue⟩ := hrows d hd
        have hnot := hdue j e he row (hid ▸ hrow)
        rw [hrowdue] at hnot
        cases hnot
      | markDelivered deliveryID statusCode now =>
        obtain ⟨d, rest, hhand, rfl⟩ := hallows
        exact h.mark hhand rfl
      | markRetry deliveryID statusCode errMsg nextAt dead =>
        obtain ⟨d, rest, hhand, rfl⟩ := hallows
        exact h.mark hhand rfl
      | _ => cases hs
  | _ =>
    cases hstep
    exact h.quiet rfl rfl rfl hnone rfl

theorem Held.init {w : World} (hw : w.history = []) : Held w fun _ => {} := by
  refine ⟨fun i => List.nodup_nil, fun i j d e hd => (List.not_mem_nil hd).elim, fun id hid => ?_, fun id hid => ?_, fun id => ?_⟩
  · rw [hw] at hid
    cases hid
  · rw [hw] at hid
    cases hid
  · rw [hw]
    exact ⟨Nat.zero_le 1, Nat.zero_le 1⟩

/-! ## Claims are exclusive -/

/-- Where no claim finds a delivery due that a worker still holds, each delivery is claimed
at most once and sent at most once between two marks, whatever workers crash and calls fail. -/
theorem claims_exclusive (svc : Service) {w : World} (hw : w.history = [])
    {past : List (Pool Op (World × (Nat → Round)) Unit)} {p : Pool Op (World × (Nat → Round)) Unit}
    (h : Run (Pool.Next ((machine.watched svc.rounds).given HeldNotDue) svc.Program)
      (Pool.idle (w, fun _ => svc.rounds.init)) past p) : Exclusive p.shared.1.history := by
  have hheld : Held p.shared.1 p.shared.2 := by
    refine Pool.watched_invariant (I := fun x => Held x.1 x.2) h (fun m => Service.Program.accepted) (Held.init hw) ?_ ?_ ?_
    · intro i β o r x x' hx hallows hdue hstep hrounds
      rw [hrounds]
      exact hx.exec hallows hdue hstep
    · intro i x hx
      have hquiet : ∀ e ∈ [Event.crashed i], e.Quiet := fun e he => by
        cases List.mem_singleton.1 he
        exact fun id => ⟨rfl, rfl, rfl⟩
      exact hx.regroup (.of_eq (List.nil_append _)) (fun id => Round.Underway.abandon) hquiet rfl
    · intro x w' hx henv
      obtain ⟨-, hhistory, -⟩ := henv
      exact ⟨hx.nodup, hx.apart, hhistory ▸ hx.claimed, hhistory ▸ hx.posted, hhistory ▸ hx.exclusive⟩
  exact hheld.exclusive

def noClaim (_ : Nat) : {β : Type} → Op β → World × (Nat → Round) → Bool
  | _, .stmt (.claimPending _), _ => false
  | _, _, _ => true

theorem noClaim_heldNotDue (i : Nat) {β : Type} (o : Op β) (x : World × (Nat → Round)) (h : noClaim i o x) :
    HeldNotDue i o x := by
  cases o with
  | stmt s =>
    cases s with
    | claimPending batchSize => cases h
    | _ => trivial
  | _ => trivial

/-- One worker alone that delivers what is due. -/
theorem claims_exclusive_lone : ∃ past p,
    Run (Pool.Next ((machine.watched plainService.rounds).given HeldNotDue) plainService.Program)
      (Pool.idle (loneWorld, fun _ => plainService.rounds.init)) past p ∧
    postsSinceMark "delivery" p.shared.1.history = 1 ∧ Exclusive p.shared.1.history := by
  have horphans : ∀ r w', World.exec answerOK 0 (.stmt .finalizeOrphans) loneWorld = some (r, w') →
      ((machine.watched plainService.rounds).given HeldNotDue).step 0 (.stmt .finalizeOrphans)
        (loneWorld, fun _ => {}) r (w', fun _ => {}) :=
    fun r w' h => ⟨trivial, World.exec_step _ _ _ _ _ h, (Function.update_eq_self 0 _).symm⟩
  -- nobody holds anything when the worker claims
  have hclaim : ∀ w r w', World.exec answerOK 0 (.stmt (.claimPending 20)) w = some (r, w') →
      ((machine.watched plainService.rounds).given HeldNotDue).step 0 (.stmt (.claimPending 20)) (w, fun _ => {}) r
        (w', Function.update (fun _ => {}) 0 (Round.next {} (.stmt (.claimPending 20)) r)) :=
    fun w r w' h => ⟨fun i d hd => (List.not_mem_nil hd).elim, World.exec_step _ _ _ _ _ h, rfl⟩
  have hstart : Pool.Next ((machine.watched plainService.rounds).given HeldNotDue) plainService.Program
    (Pool.idle (loneWorld, fun _ => {})) _ := .start (i := 0) rfl (.deliverPending 20)
  obtain ⟨past, hclaimed⟩ := @Pool.runs_path _ _ _ _ plainService.Program
    ((Pool.idle (loneWorld, fun _ => {})).move 0 (some (plainService.deliverPending 20)) (loneWorld, fun _ => {}))
    _ _ _ _ _ (.step (horphans _ _ rfl) (.step (hclaim _ _ _ rfl) (.refl _ _))) rfl (Pool.move_session_self ..)
  obtain ⟨past, p, hrun, hposts⟩ := Pool.play_on [.calls 0 4]
    (fun p => postsSinceMark "delivery" p.shared.1.history = 1) ((Run.start.next hstart).trans hclaimed)
    (guarded_step noClaim_heldNotDue (plainService.rounds.execute_step (@World.exec_step answerOK)))
    trivial (by decide)
  exact ⟨_, p, hrun, by simpa using hposts, claims_exclusive plainService rfl hrun⟩

/-- Two workers, of which the second claims between the first one's claim and its request. -/
def overlapping : List (Turn Op World Unit) :=
  [.start 0 (plainService.deliverPending 20), .start 1 (plainService.deliverPending 20),
    .calls 0 2, .calls 1 2, .calls 0 4, .calls 1 4]

theorem overlapping_legal : overlapping.Forall (Turn.Legal machine plainService.Program) :=
  ⟨.deliverPending 20, .deliverPending 20, trivial, trivial, trivial, trivial⟩

theorem concurrent_claims : ¬ ∀ (svc : Service) (w : World) (past : List (Pool Op World Unit)) (p : Pool Op World Unit),
    w.history = [] → Run (Pool.Next machine svc.Program) (Pool.idle w) past p →
    (∀ t i, (t, Event.crashed i) ∉ p.shared.history) → Exclusive p.shared.history := by
  intro h
  have hplay : (Pool.play (World.exec answerOK) overlapping (Pool.idle loneWorld)).any fun p =>
      p.shared.history.all (fun e => !e.2.crashes) ∧ claimsSinceMark "delivery" p.shared.history = 2 ∧
        postsSinceMark "delivery" p.shared.history = 2 := by decide
  obtain ⟨past, p, hrun, hcheck⟩ := Pool.play_any World.exec_step overlapping_legal hplay
  simp only [decide_eq_true_eq, List.all_eq_true] at hcheck
  obtain ⟨hcrash, hclaims, -⟩ := hcheck
  have hnot : ∀ t i, (t, Event.crashed i) ∉ p.shared.history := fun t i he => Bool.false_ne_true (hcrash _ he)
  have hone := (h plainService loneWorld past p rfl hrun hnot "delivery").1
  rw [hclaims] at hone
  exact absurd hone (by decide)

end Ploykit.Webhooks

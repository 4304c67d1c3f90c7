import Ploykit.Webhooks.Exclusive

/-!
# Delivered rows

The marks are keyed by the id alone. A retry mark is the one statement that can take a
row back, and it does so where a slower worker makes it after the delivery.
-/

namespace Ploykit.Webhooks

open Lib

/-! ## Statements over one delivery -/

section rows

variable {db : Db} {id : String} {row : DeliveryRow}

section update

variable {ids : List String} {f : DeliveryRow → DeliveryRow} (hf : ∀ d, (f d).id = d.id)

theorem delivery_update (hrow : db.delivery id = some row) (h : id ∈ ids) :
    (db.updateDelivery ids f hf).delivery id = some (f row) := by
  change (db.deliveries.update ids f hf).get id = _
  rw [Keyed.get_update, if_pos h]
  exact congrArg (Option.map f) hrow

theorem delivery_update_ne (h : id ∉ ids) : (db.updateDelivery ids f hf).delivery id = db.delivery id := by
  change (db.deliveries.update ids f hf).get id = _
  rw [Keyed.get_update, if_neg h]
  rfl

end update

theorem delivery_insert {db' : Db} {new : DeliveryRow} {r : Option DeliveryRow}
    (hins : db.insertDelivery new = .ok (r, db')) (h : db.delivery id = some row) : db'.delivery id = some row := by
  rcases insertDelivery_ok hins with ⟨-, -, rfl⟩ | ⟨hnone, -, -, rfl⟩
  · exact h
  · change (db.deliveries.insert new hnone).get id = some row
    rw [Keyed.get_insert]
    split
    · rename_i hid
      rw [hid] at hnone
      exact absurd (hnone.symm.trans h) (Option.some_ne_none row).symm
    · exact h

theorem delivery_emit {db' : Db} {c : Choice} {now : Time} {event : OutboundEvent} {subs : List SubscriptionRow} {n : Nat}
    (hemit : db.emit c now event subs = .ok (n, db')) (h : db.delivery id = some row) : db'.delivery id = some row :=
  emit_keeps (I := fun db => db.delivery id = some row) (fun _ _ _ _ hins => delivery_insert hins) hemit h

end rows

/-- No retry mark is made of a row that is delivered. -/
def RetriesUndelivered (_ : Nat) : {β : Type} → Op β → World → Prop
  | _, .stmt (.markRetry deliveryID _ _ _ _), w => ∀ row ∈ w.db.delivery deliveryID, row.status ≠ .delivered
  | _, _, _ => True

/-- The row is delivered as it was, and at the same time where it is not delivered again. -/
def DeliveryRow.StaysDelivered (row row' : DeliveryRow) (again : Prop) : Prop :=
  row'.status = .delivered ∧ row'.attempts = row.attempts ∧ (¬ again → row'.deliveredAt = row.deliveredAt)

theorem DeliveryRow.StaysDelivered.refl {row : DeliveryRow} {again : Prop} (h : row.status = .delivered) :
    row.StaysDelivered row again := ⟨h, rfl, fun _ => rfl⟩

/-- Every statement but a retry mark keeps a delivered row. -/
theorem Stmt.run_delivered {β : Type} {s : Stmt β} {c : Choice} {i : Nat} {w : World} {a : β} {db' : Db}
    (hrun : s.run c w.clock w.db = .ok (a, db')) (hretry : RetriesUndelivered i (.stmt s) w) {id : String}
    {row : DeliveryRow} (hrow : w.db.delivery id = some row) (hdelivered : row.status = .delivered) :
    ∃ row', db'.delivery id = some row' ∧
      row.StaysDelivered row' (Event.marked id .delivered ∈ s.events i w.db a) := by
  -- what does not find the row leaves it
  have hsame : ∀ {db : Db} {again : Prop}, db.delivery id = some row →
      ∃ row', db.delivery id = some row' ∧ row.StaysDelivered row' again :=
    fun h => ⟨row, h, .refl hdelivered⟩
  have hmiss : ∀ {ids : List String} {f : DeliveryRow → DeliveryRow} {hf : ∀ d, (f d).id = d.id} {again : Prop},
      id ∉ ids → ∃ row', (w.db.updateDelivery ids f hf).delivery id = some row' ∧ row.StaysDelivered row' again :=
    fun h => hsame ((delivery_update_ne _ h).trans hrow)
  have hpending : ∀ {rows : List DeliveryRow}, (∀ r ∈ rows, w.db.delivery r.id = some r ∧ r.status = .pending) →
      id ∉ rows.map DeliveryRow.id := by
    intro rows hrows hid
    obtain ⟨r, hr, rfl⟩ := List.mem_map.1 hid
    obtain ⟨hget, hstatus⟩ := hrows r hr
    rw [hrow] at hget
    cases hget
    rw [hdelivered] at hstatus
    cases hstatus
  cases s with
  | finalizeOrphans =>
    cases hrun
    refine hmiss (hpending fun r hr => ?_)
    simp only [Db.orphans, List.mem_filter, decide_eq_true_eq] at hr
    exact ⟨Keyed.get_of_mem hr.1, hr.2.1⟩
  | claimPending batchSize =>
    cases hrun
    refine hmiss (hpending fun r hr => ?_)
    obtain ⟨hget, hdue⟩ := claimed_sublist.2 r hr
    simp only [Db.due, decide_eq_true_eq] at hdue
    exact ⟨hget, hdue.1⟩
  | markDelivered deliveryID statusCode now =>
    cases hrun
    by_cases hid : id = deliveryID
    · subst hid
      exact ⟨_, delivery_update _ hrow (.head _), rfl, rfl, fun hagain => (hagain (.head _)).elim⟩
    · exact hmiss fun hmem => hid (List.mem_singleton.1 hmem)
  | markRetry deliveryID statusCode errMsg nextAt dead =>
    simp only [Stmt.run] at hrun
    split at hrun
    · cases hrun
    · cases hrun
      refine hmiss fun hmem => ?_
      cases List.mem_singleton.1 hmem
      exact hretry row hrow hdelivered
  | clearFirstFailure deliveryID =>
    simp only [Stmt.run] at hrun
    split at hrun
    · cases hrun; exact hsame hrow
    · cases hrun; exact hsame hrow
  | setFirstFailure deliveryID =>
    simp only [Stmt.run] at hrun
    split at hrun
    · cases hrun; exact hsame hrow
    · cases hrun; exact hsame hrow
  | setSubscriptionActive cause workspaceID sub active =>
    simp only [Stmt.run] at hrun
    split at hrun
    · cases hrun; exact hsame hrow
    · cases hrun; exact hsame hrow
  | rotateSecret workspaceID sub newSealed oldExpiresAt =>
    simp only [Stmt.run] at hrun
    split at hrun
    · cases hrun; exact hsame hrow
    · cases hrun; exact hsame hrow
  | createSubscription workspaceID eventTypes url secret =>
    simp only [Stmt.run] at hrun
    split at hrun
    · cases hrun; exact hsame hrow
    · cases hrun
  | deleteSubscription workspaceID sub =>
    simp only [Stmt.run] at hrun
    split at hrun
    · cases hrun; exact hsame hrow
    · cases hrun
      have hmem : id ∈ w.db.deliveries.rows.map DeliveryRow.id :=
        Keyed.key_of_get hrow ▸ List.mem_map_of_mem (Keyed.mem_of_get hrow)
      refine ⟨_, delivery_update (fun d => by split <;> rfl) hrow hmem, ?_⟩
      split
      · exact ⟨hdelivered, rfl, fun _ => rfl⟩
      · exact .refl hdelivered
  | emitForEvent workspaceID event =>
    exact hsame (delivery_emit hrun hrow)
  | enqueuePing workspaceID sub eventID =>
    simp only [Stmt.run] at hrun
    split at hrun
    · cases hrun; exact hsame hrow
    · split at hrun
      · rename_i hins
        cases hrun
        exact hsame (delivery_insert hins hrow)
      · cases hrun
      · cases hrun
  | redeliver workspaceID deliveryID =>
    simp only [Stmt.run] at hrun
    split at hrun
    · cases hrun; exact hsame hrow
    · exact hsame (delivery_insert hrun hrow)
  | _ => cases hrun; exact hsame hrow

/-! ## Runs -/

/-- What has been delivered in `w` is delivered in `w'`, after the same number of attempts and
at the same time, if it has not been marked as delivered again between them. -/
def Terminal (w w' : World) : Prop :=
  ∃ new, w'.history = new ++ w.history ∧ ∀ id row, w.db.delivery id = some row → row.status = .delivered →
    ∃ row', w'.db.delivery id = some row' ∧ row.StaysDelivered row' (∃ t, (t, Event.marked id .delivered) ∈ new)

theorem Terminal.refl (w : World) : Terminal w w :=
  ⟨[], rfl, fun _ row hrow hdelivered => ⟨row, hrow, .refl hdelivered⟩⟩

theorem Terminal.trans {w₁ w₂ w₃ : World} (h : Terminal w₁ w₂) (h' : Terminal w₂ w₃) : Terminal w₁ w₃ := by
  obtain ⟨new, hnew, hrows⟩ := h
  obtain ⟨new', hnew', hrows'⟩ := h'
  refine ⟨new' ++ new, by rw [hnew', hnew, List.append_assoc], fun id row hrow hdelivered => ?_⟩
  obtain ⟨row₂, hrow₂, hstatus₂, hattempts₂, hat₂⟩ := hrows id row hrow hdelivered
  obtain ⟨row₃, hrow₃, hstatus₃, hattempts₃, hat₃⟩ := hrows' id row₂ hrow₂ hstatus₂
  refine ⟨row₃, hrow₃, hstatus₃, hattempts₃.trans hattempts₂, fun hagain => ?_⟩
  have hnone : ¬ ∃ t, (t, Event.marked id .delivered) ∈ new := fun ⟨t, ht⟩ => hagain ⟨t, List.mem_append_right _ ht⟩
  have hnone' : ¬ ∃ t, (t, Event.marked id .delivered) ∈ new' := fun ⟨t, ht⟩ => hagain ⟨t, List.mem_append_left _ ht⟩
  exact (hat₃ hnone').trans (hat₂ hnone)

/-- A step that leaves the store. -/
theorem Terminal.of_db {w w' : World} {events : List Event} (hdb : w'.db = w.db)
    (hhistory : w'.history = (w.record events).history) : Terminal w w' :=
  ⟨_, hhistory, fun _ row hrow hdelivered => ⟨row, hdb ▸ hrow, .refl hdelivered⟩⟩

theorem Step.terminal {i : Nat} {β : Type} {o : Op β} {w w' : World} {r : β} (h : Step i o w r w')
    (hretry : RetriesUndelivered i o w) : Terminal w w' := by
  cases o with
  | now =>
    obtain ⟨-, rfl⟩ := h
    exact .refl _
  | jitter d =>
    obtain ⟨-, rfl⟩ := h
    exact .refl _
  | post req =>
    cases h
    exact .of_db rfl rfl
  | stmt s =>
    rcases h with ⟨err, -, rfl⟩ | ⟨c, a, db', hrun, -, rfl⟩
    · exact .refl _
    refine ⟨_, rfl, fun id row hrow hdelivered => ?_⟩
    obtain ⟨row', hrow', hstatus, hattempts, hat⟩ := Stmt.run_delivered hrun hretry hrow hdelivered
    refine ⟨row', hrow', hstatus, hattempts, fun hagain => hat fun hevent => hagain ⟨w.clock, ?_⟩⟩
    exact List.mem_map_of_mem hevent
  | _ =>
    cases h
    exact .refl _

/-- Where no retry mark is made of a delivered row, delivered rows stay so in every run. -/
theorem delivered_terminal (svc : Service) {past : List (Pool Op World Unit)} {q p : Pool Op World Unit}
    (h : Run (Pool.Next (machine.given RetriesUndelivered) svc.Program) q past p) : Terminal q.shared p.shared := by
  refine h.relates (T := fun q p => Terminal q.shared p.shared) (fun q => .refl _) (fun _ _ _ => .trans) ?_
  intro q p hstep
  cases hstep with
  | start _ _ => exact .refl _
  | exec _ hs => exact hs.2.terminal hs.1
  | finish _ => exact .refl _
  | crash _ => exact .of_db rfl rfl
  | env hs => exact @Terminal.of_db _ _ [] hs.1 hs.2.1

/-! ### A worker that is answered late -/

/-- The first worker is answered with success, the others are not. -/
def answerFirst (i : Nat) (_ : World) : Except String Response := .ok ⟨if i = 0 then 200 else 500, false⟩

def noRetry (_ : Nat) : {β : Type} → Op β → World → Bool
  | _, .stmt (.markRetry deliveryID _ _ _ _), w => (w.db.delivery deliveryID).all (·.status ≠ .delivered)
  | _, _, _ => true

theorem noRetry_retriesUndelivered (i : Nat) {β : Type} (o : Op β) (w : World) (h : noRetry i o w) :
    RetriesUndelivered i o w := by
  cases o with
  | stmt s =>
    cases s with
    | markRetry deliveryID statusCode errMsg nextAt dead =>
      intro row hrow
      have hall := Option.all_eq_true _ _ |>.1 h row hrow
      simpa using hall
    | _ => trivial
  | _ => trivial

/-- A worker whose request fails, the time of the backoff, and one that delivers. -/
def retried : List (Turn Op World Unit) :=
  [.start 1 (plainService.deliverPending 20), .calls 1 9, .finish 1, .env (World.wait hour),
    .start 0 (plainService.deliverPending 20), .calls 0 8]

theorem retried_legal : retried.Forall (Turn.Legal (machine.given RetriesUndelivered) plainService.Program) :=
  ⟨.deliverPending 20, trivial, trivial, World.wait_env (by decide), .deliverPending 20, trivial⟩

def isDelivered (p : Pool Op World Unit) : Bool :=
  (p.shared.db.delivery "delivery").any fun row => row.status = .delivered ∧ row.attempts = 2

/-- A round after that, which finds nothing due. -/
def nextRound : List (Turn Op World Unit) :=
  [.finish 0, .env (World.wait hour), .start 1 (plainService.deliverPending 20), .calls 1 2]

theorem nextRound_legal : nextRound.Forall (Turn.Legal (machine.given RetriesUndelivered) plainService.Program) :=
  ⟨trivial, World.wait_env (by decide), .deliverPending 20, trivial⟩

theorem delivered_terminal_retried : ∃ past q past' p,
    Run (Pool.Next (machine.given RetriesUndelivered) plainService.Program) (Pool.idle loneWorld) past q ∧
    Run (Pool.Next (machine.given RetriesUndelivered) plainService.Program) q past' p ∧
    isDelivered q ∧ p.shared.clock = hour + hour ∧ Terminal q.shared p.shared := by
  have hplay : (Pool.play (guarded noRetry (World.exec answerFirst)) retried (Pool.idle loneWorld)).any fun q =>
      isDelivered q ∧ (Pool.play (guarded noRetry (World.exec answerFirst)) nextRound q).any fun p =>
        p.shared.clock = hour + hour := by decide
  have hexec := guarded_step noRetry_retriesUndelivered (@World.exec_step answerFirst)
  obtain ⟨past, q, hrun, hq⟩ := Pool.play_any hexec retried_legal hplay
  simp only [decide_eq_true_eq] at hq
  obtain ⟨past', p, hrun', hp⟩ := Pool.play_any hexec nextRound_legal hq.2
  exact ⟨past, q, past', p, hrun, hrun', hq.1, by simpa using hp, delivered_terminal plainService hrun'⟩

/-- Two workers hold the delivery, and the first one is answered with success. -/
def lateMark : List (Turn Op World Unit) :=
  [.start 0 (plainService.deliverPending 20), .start 1 (plainService.deliverPending 20),
    .calls 0 2, .calls 1 2, .calls 0 6]

theorem lateMark_legal : lateMark.Forall (Turn.Legal machine plainService.Program) :=
  ⟨.deliverPending 20, .deliverPending 20, trivial, trivial, trivial⟩

/-- After that the other worker makes its retry mark. -/
theorem late_retry : ¬ ∀ (svc : Service) (w : World) (past past' : List (Pool Op World Unit)) (q p : Pool Op World Unit),
    Run (Pool.Next machine svc.Program) (Pool.idle w) past q → Run (Pool.Next machine svc.Program) q past' p →
    Terminal q.shared p.shared := by
  intro h
  have hplay : (Pool.play (World.exec answerFirst) lateMark (Pool.idle loneWorld)).any fun q =>
      isDelivered q ∧ (Pool.play (World.exec answerFirst) [.calls 1 6] q).any fun p =>
        (p.shared.db.delivery "delivery").any fun row => row.status = .pending := by decide
  obtain ⟨past, q, hrun, hq⟩ := Pool.play_any World.exec_step lateMark_legal hplay
  simp only [decide_eq_true_eq] at hq
  have hlegal : [Turn.calls 1 6].Forall (Turn.Legal machine plainService.Program) := trivial
  obtain ⟨past', p, hrun', hp⟩ := Pool.play_any World.exec_step hlegal hq.2
  obtain ⟨new, -, hrows⟩ := h plainService loneWorld past past' q p hrun hrun'
  obtain ⟨row, hrow, hdelivered⟩ := Option.any_eq_true _ _ |>.1 hq.1
  simp only [decide_eq_true_eq] at hdelivered
  obtain ⟨row', hrow', hstatus, -⟩ := hrows "delivery" row hrow hdelivered.1
  rw [hrow'] at hp
  simp [hstatus] at hp

end Ploykit.Webhooks

import Ploykit.Webhooks.Terminal

/-!
# Events reach their subscribers

A partial unique index holds the pending deliveries apart. No statement takes a row away,
and only the deletion of its subscription takes that from it. A row is pending until a
round delivers it or gives it up, and a round leaves alone what belongs to a subscription
that is paused.
-/

namespace Ploykit.Webhooks

open Lib

/-- `uq_webhook_delivery`: no two pending deliveries are of one subscription and one event. -/
def UniquePending (db : Db) : Prop := ∀ d ∈ db.deliveries.rows, ∀ d' ∈ db.deliveries.rows,
  d.status = .pending → d'.status = .pending → d.subscriptionID.isSome → d.subscriptionID = d'.subscriptionID →
  d.eventID = d'.eventID → d = d'

/-- The delivery is of the event, for the subscription. -/
def DeliveryRow.Of (sub event : String) (d : DeliveryRow) : Prop := d.subscriptionID = some sub ∧ d.eventID = event

def PendingFor (db : Db) (sub event : String) : Prop := ∃ d ∈ db.deliveries.rows, d.status = .pending ∧ d.Of sub event

/-- No delivery of the event has been created for the subscription. -/
def CreatesNothing (db db' : Db) (sub event : String) : Prop :=
  ∀ d ∈ db'.deliveries.rows, d.Of sub event → (db.delivery d.id).isSome

/-- The row as it may be later: of the same event, and of the same subscription while that exists. -/
structure DeliveryRow.Remains (row row' : DeliveryRow) : Prop where
  id : row'.id = row.id
  workspaceID : row'.workspaceID = row.workspaceID
  eventID : row'.eventID = row.eventID
  eventType : row'.eventType = row.eventType
  payload : row'.payload = row.payload
  subscriptionID : row'.subscriptionID = row.subscriptionID ∨ row'.subscriptionID = none

theorem DeliveryRow.Remains.refl (row : DeliveryRow) : row.Remains row := ⟨rfl, rfl, rfl, rfl, rfl, .inl rfl⟩

theorem DeliveryRow.Remains.trans {row row₁ row₂ : DeliveryRow} (h : row.Remains row₁) (h' : row₁.Remains row₂) :
    row.Remains row₂ where
  id := h'.id.trans h.id
  workspaceID := h'.workspaceID.trans h.workspaceID
  eventID := h'.eventID.trans h.eventID
  eventType := h'.eventType.trans h.eventType
  payload := h'.payload.trans h.payload
  subscriptionID := by
    rcases h'.subscriptionID with hsame | hnone
    · rw [hsame]
      exact h.subscriptionID
    · exact .inr hnone

/-! ## What a statement does to the rows -/

/-- What a statement makes of the rows that there are: it keeps their ids and events, and it sets a
row back to pending only where no other one is pending for the event. -/
structure Touch (db : Db) (f : DeliveryRow → DeliveryRow) : Prop where
  remains : ∀ d : DeliveryRow, d.Remains (f d)
  pending : ∀ d ∈ db.deliveries.rows, (f d).status = .pending →
    d.status = .pending ∨ ∀ d' ∈ db.deliveries.rows, d'.id ≠ d.id → f d' = d' ∧ (d.subscriptionID.isSome →
      d'.status = .pending → d'.subscriptionID = d.subscriptionID → d'.eventID ≠ d.eventID)

/-- Deliveries are inserted, each where none is pending for its event. -/
inductive Inserts (db : Db) : Db → Prop
  | none : Inserts db db
  | more {db₁ db' : Db} {row : DeliveryRow} {r : Option DeliveryRow} (h : Inserts db db₁)
    (hins : db₁.insertDelivery row = .ok (r, db')) : Inserts db db'

/-- What becomes of the deliveries: those that there are are touched, or others are inserted. -/
inductive Rows (db db' : Db) : Prop
  | touched {f : DeliveryRow → DeliveryRow} (hf : Touch db f) (hrows : db'.deliveries.rows = db.deliveries.rows.map f)
  | inserted (h : Inserts db db')

section rows

variable {db db' : Db} {row : DeliveryRow} {r : Option DeliveryRow} {id sub event : String}

theorem Rows.same (h : db'.deliveries = db.deliveries) : Rows db db' :=
  .touched (f := fun d => d) ⟨fun d => .refl d, fun _ _ h => .inl h⟩ (by rw [h, List.map_id'])

/-- An update that leaves what is not pending so. -/
theorem Rows.update {ids : List String} {f : DeliveryRow → DeliveryRow} (hf : ∀ d, (f d).id = d.id)
    (hremains : ∀ d : DeliveryRow, d.Remains (f d)) (hpending : ∀ d ∈ db.deliveries.rows, d.id ∈ ids → (f d).status = .pending → d.status = .pending) :
    Rows db (db.updateDelivery ids f hf) := by
  refine .touched (f := fun d => if d.id ∈ ids then f d else d) ⟨fun d => ?_, fun d hd hstatus => .inl ?_⟩ rfl
  · split
    · exact hremains d
    · exact .refl d
  · split at hstatus
    · rename_i hid
      exact hpending d hd hid hstatus
    · exact hstatus

theorem Inserts.remains (h : Inserts db db') (hrow : db.delivery id = some row) : db'.delivery id = some row := by
  induction h with
  | none => exact hrow
  | more _ hins ih => exact delivery_insert hins ih

theorem Rows.remains (h : Rows db db') (hrow : db.delivery id = some row) :
    ∃ row', db'.delivery id = some row' ∧ row.Remains row' := by
  cases h with
  | @touched f hf hrows =>
    have hmem : f row ∈ db'.deliveries.rows := hrows ▸ List.mem_map_of_mem (Keyed.mem_of_get hrow)
    have hid : (f row).id = id := (hf.remains row).id.trans (Keyed.key_of_get hrow)
    exact ⟨f row, hid ▸ Keyed.get_of_mem hmem, hf.remains row⟩
  | inserted h => exact ⟨row, h.remains hrow, .refl row⟩

/-! ### The index -/

/-- What is still of a subscription was so before. -/
theorem Touch.subscriptionID {f : DeliveryRow → DeliveryRow} (hf : Touch db f) {d : DeliveryRow}
    (h : (f d).subscriptionID.isSome) : (f d).subscriptionID = d.subscriptionID := by
  refine (hf.remains d).subscriptionID.resolve_right fun hnone => ?_
  rw [hnone] at h
  cases h

/-- A row that is pending again is the only one of its event. -/
theorem Touch.pending_or {f : DeliveryRow → DeliveryRow} (hf : Touch db f) {d d' : DeliveryRow} (hd : d ∈ db.deliveries.rows)
    (hd' : d' ∈ db.deliveries.rows) (hp : (f d).status = .pending) (hp' : (f d').status = .pending)
    (hsome : (f d).subscriptionID.isSome) (hsub : (f d).subscriptionID = (f d').subscriptionID)
    (hevent : (f d).eventID = (f d').eventID) : d.status = .pending ∨ d'.id = d.id := by
  rcases hf.pending d hd hp with hpending | hfree
  · exact .inl hpending
  refine .inr (Classical.byContradiction fun hne => ?_)
  obtain ⟨hsame, hclash⟩ := hfree d' hd' hne
  rw [hsame] at hp' hsub hevent
  have hown := hf.subscriptionID hsome
  have heq : d'.eventID = d.eventID := hevent.symm.trans (hf.remains d).eventID
  exact hclash (hown ▸ hsome) hp' (hsub.symm.trans hown) heq

theorem row_of_id {d d' : DeliveryRow} (hd : d ∈ db.deliveries.rows) (hd' : d' ∈ db.deliveries.rows) (h : d'.id = d.id) :
    d = d' := by
  have hsame : some d = some d' := (Keyed.get_of_mem hd).symm.trans (h ▸ Keyed.get_of_mem hd')
  exact Option.some.inj hsame

theorem Touch.unique {f : DeliveryRow → DeliveryRow} (hf : Touch db f) (hrows : db'.deliveries.rows = db.deliveries.rows.map f)
    (hu : UniquePending db) : UniquePending db' := by
  intro e he e' he' hp hp' hsome hsub hevent
  rw [hrows] at he he'
  obtain ⟨d, hd, rfl⟩ := List.mem_map.1 he
  obtain ⟨d', hd', rfl⟩ := List.mem_map.1 he'
  have hown := hf.subscriptionID hsome
  have hown' := hf.subscriptionID (hsub ▸ hsome)
  rcases hf.pending_or hd hd' hp hp' hsome hsub hevent with hpending | hid
  · rcases hf.pending_or hd' hd hp' hp (hsub ▸ hsome) hsub.symm hevent.symm with hpending' | hid
    · have hsub₀ : d.subscriptionID = d'.subscriptionID := hown.symm.trans (hsub.trans hown')
      have hevent₀ : d.eventID = d'.eventID := (hf.remains d).eventID.symm.trans (hevent.trans (hf.remains d').eventID)
      rw [hu d hd d' hd' hpending hpending' (hown ▸ hsome) hsub₀ hevent₀]
    · rw [row_of_id hd' hd hid]
  · rw [row_of_id hd hd' hid]

/-- The rows after an insertion. -/
theorem mem_inserted {new d : DeliveryRow} (hid : db.deliveries.get new.id = none) :
    d ∈ (db.deliveries.insert new hid).rows ↔ d ∈ db.deliveries.rows ∨ d = new := by
  simp [Keyed.insert]

/-- A row that is let in is of another event than what is pending for its subscription. -/
theorem clash_free {new d : DeliveryRow} (hid : db.deliveries.get new.id = none) (hfree : db.pendingClash new = false)
    (hd : d ∈ db.deliveries.rows) (hp : d.status = .pending) (hsome : d.subscriptionID.isSome)
    (hsub : d.subscriptionID = new.subscriptionID) : d.eventID ≠ new.eventID := by
  intro hevent
  have hne : d.id ≠ new.id := by
    intro heq
    have hget : db.deliveries.get new.id = some d := heq ▸ Keyed.get_of_mem hd
    rw [hid] at hget
    cases hget
  simp only [Db.pendingClash, decide_eq_false_iff_not, not_and, List.any_eq_true, not_exists] at hfree
  exact hfree (hsub ▸ hsome) d hd (by simp [hne, hp, hsub, hevent])

theorem insert_unique {new : DeliveryRow} (hins : db.insertDelivery new = .ok (r, db')) (hu : UniquePending db) :
    UniquePending db' := by
  rcases insertDelivery_ok hins with ⟨-, -, rfl⟩ | ⟨hid, -, hfree, rfl⟩
  · exact hu
  intro d hd d' hd' hp hp' hsome hsub hevent
  rcases (mem_inserted hid).1 hd with hold | rfl
  · rcases (mem_inserted hid).1 hd' with hold' | rfl
    · exact hu d hold d' hold' hp hp' hsome hsub hevent
    · exact (clash_free hid hfree hold hp hsome hsub hevent).elim
  · rcases (mem_inserted hid).1 hd' with hold' | rfl
    · exact (clash_free hid hfree hold' hp' (hsub ▸ hsome) hsub.symm hevent.symm).elim
    · rfl

theorem Rows.unique (h : Rows db db') (hu : UniquePending db) : UniquePending db' := by
  cases h with
  | touched hf hrows => exact hf.unique hrows hu
  | inserted h =>
    induction h with
    | none => exact hu
    | more _ hins ih => exact insert_unique hins ih

/-! ### Deliveries that wait already -/

/-- An insertion leaves what is pending, and adds nothing to it. -/
theorem insert_waiting {new : DeliveryRow} (hins : db.insertDelivery new = .ok (r, db')) (h : PendingFor db sub event) :
    PendingFor db' sub event ∧ ∀ e ∈ db'.deliveries.rows, e.Of sub event → e ∈ db.deliveries.rows := by
  obtain ⟨d, hd, hp, hof⟩ := h
  rcases insertDelivery_ok hins with ⟨-, -, rfl⟩ | ⟨hid, -, hfree, rfl⟩
  · exact ⟨⟨d, hd, hp, hof⟩, fun e he _ => he⟩
  refine ⟨⟨d, (mem_inserted hid).2 (.inl hd), hp, hof⟩, fun e he hofe => ((mem_inserted hid).1 he).resolve_right ?_⟩
  rintro rfl
  have hsome : d.subscriptionID.isSome := by simp [hof.1]
  exact clash_free hid hfree hd hp hsome (hof.1.trans hofe.1.symm) (hof.2.trans hofe.2.symm)

theorem Inserts.waiting (h : Inserts db db') (hp : PendingFor db sub event) :
    PendingFor db' sub event ∧ ∀ e ∈ db'.deliveries.rows, e.Of sub event → e ∈ db.deliveries.rows := by
  induction h with
  | none => exact ⟨hp, fun e he _ => he⟩
  | more _ hins ih =>
    obtain ⟨hp₁, hold⟩ := ih
    obtain ⟨hp', hold'⟩ := insert_waiting hins hp₁
    exact ⟨hp', fun e he hof => hold e (hold' e he hof) hof⟩

theorem Rows.creates_nothing (h : Rows db db') (hp : PendingFor db sub event) : CreatesNothing db db' sub event := by
  cases h with
  | @touched f hf hrows =>
    intro e he _
    rw [hrows] at he
    obtain ⟨d, hd, rfl⟩ := List.mem_map.1 he
    rw [(hf.remains d).id]
    exact Option.isSome_of_mem (Keyed.get_of_mem hd)
  | inserted h =>
    intro e he hof
    exact Option.isSome_of_mem (Keyed.get_of_mem ((h.waiting hp).2 e he hof))

end rows

/-! ## Statements -/

section statements

variable {db db' : Db} {c : Choice} {now : Time} {event : OutboundEvent} {subs : List SubscriptionRow} {n : Nat}

theorem emit_inserts (h : db.emit c now event subs = .ok (n, db')) : Inserts db db' :=
  emit_keeps (I := fun db' => Inserts db db') (fun _ _ _ _ hins hdb => hdb.more hins) h .none

/-- A delivery is pending for each subscription that an emission goes through. -/
theorem emit_reaches (h : db.emit c now event subs = .ok (n, db')) {s : SubscriptionRow} (hs : s ∈ subs) :
    PendingFor db' s.id event.id := by
  induction subs generalizing db n with
  | nil => cases hs
  | cons s' subs ih =>
    obtain ⟨r, db₁, m, hins, hemit, -⟩ := emit_cons h
    rcases List.mem_cons.1 hs with rfl | hs
    · refine ((emit_inserts hemit).waiting ?_).1
      rcases insertDelivery_ok hins with ⟨-, hclash, rfl⟩ | ⟨hid, -, -, rfl⟩
      · simp only [Db.pendingClash, decide_eq_true_eq, List.any_eq_true] at hclash
        obtain ⟨-, d, hd, -, hp, hsub, hevent⟩ := hclash
        exact ⟨d, hd, hp, hsub, hevent⟩
      · exact ⟨_, (mem_inserted hid).2 (.inr rfl), rfl, rfl, rfl⟩
    · exact ih hemit hs

theorem retry_touches {deliveryID errMsg : String} {statusCode : Int} {nextAt : Time} {dead : Bool}
    (h : ¬ (¬ dead ∧ ∃ d ∈ db.delivery deliveryID, db.pendingClash d)) :
    Touch db fun d => if d.id ∈ [deliveryID] then d.retry statusCode errMsg nextAt dead now else d := by
  refine ⟨fun d => ?_, fun d hd hstatus => ?_⟩
  · split
    · exact ⟨rfl, rfl, rfl, rfl, rfl, .inl rfl⟩
    · exact .refl d
  split at hstatus
  · rename_i hid
    cases List.mem_singleton.1 hid
    cases dead with
    | true => cases hstatus
    | false =>
      -- the only row that is set back to pending
      refine .inr fun d' hd' hne => ⟨if_neg fun hmem => hne (List.mem_singleton.1 hmem), fun hsome hp hsub hevent => h ?_⟩
      refine ⟨Bool.false_ne_true, d, Keyed.get_of_mem hd, ?_⟩
      simp only [Db.pendingClash, decide_eq_true_eq, List.any_eq_true]
      exact ⟨hsome, d', hd', hne, hp, hsub, hevent⟩
  · exact .inl hstatus

theorem Stmt.run_rows {β : Type} {s : Stmt β} {a : β} (hrun : s.run c now db = .ok (a, db')) : Rows db db' := by
  cases s with
  | finalizeOrphans =>
    cases hrun
    exact .update _ (fun d => ⟨rfl, rfl, rfl, rfl, rfl, .inl rfl⟩) fun _ _ _ h => nomatch h
  | claimPending batchSize =>
    cases hrun
    exact .update _ (fun d => ⟨rfl, rfl, rfl, rfl, rfl, .inl rfl⟩) fun _ _ _ h => h
  | markDelivered deliveryID statusCode now =>
    cases hrun
    exact .update _ (fun d => ⟨rfl, rfl, rfl, rfl, rfl, .inl rfl⟩) fun _ _ _ h => nomatch h
  | markRetry deliveryID statusCode errMsg nextAt dead =>
    simp only [Stmt.run] at hrun
    split at hrun
    · cases hrun
    · rename_i hfree
      cases hrun
      exact .touched (retry_touches hfree) rfl
  | clearFirstFailure deliveryID =>
    simp only [Stmt.run] at hrun
    split at hrun
    · cases hrun; exact .same rfl
    · cases hrun; exact .same rfl
  | setFirstFailure deliveryID =>
    simp only [Stmt.run] at hrun
    split at hrun
    · cases hrun; exact .same rfl
    · cases hrun; exact .same rfl
  | setSubscriptionActive cause workspaceID sub active =>
    simp only [Stmt.run] at hrun
    split at hrun
    · cases hrun; exact .same rfl
    · cases hrun; exact .same rfl
  | rotateSecret workspaceID sub newSealed oldExpiresAt =>
    simp only [Stmt.run] at hrun
    split at hrun
    · cases hrun; exact .same rfl
    · cases hrun; exact .same rfl
  | createSubscription workspaceID eventTypes url secret =>
    simp only [Stmt.run] at hrun
    split at hrun
    · cases hrun; exact .same rfl
    · cases hrun
  | deleteSubscription workspaceID sub =>
    simp only [Stmt.run] at hrun
    split at hrun
    · cases hrun; exact .same rfl
    · cases hrun
      refine .touched (f := fun d => if d.id ∈ db.deliveries.rows.map DeliveryRow.id then
        if d.subscriptionID = some sub then { d with subscriptionID := none } else d else d) ⟨fun d => ?_, fun d _ hstatus => .inl ?_⟩ rfl
      · split
        · split
          · exact ⟨rfl, rfl, rfl, rfl, rfl, .inr rfl⟩
          · exact .refl d
        · exact .refl d
      · split at hstatus
        · split at hstatus
          · exact hstatus
          · exact hstatus
        · exact hstatus
  | emitForEvent workspaceID event => exact .inserted (emit_inserts hrun)
  | enqueuePing workspaceID sub eventID =>
    simp only [Stmt.run] at hrun
    split at hrun
    · cases hrun; exact .same rfl
    · split at hrun
      · rename_i hins
        cases hrun
        exact .inserted (.more .none hins)
      · cases hrun
      · cases hrun
  | redeliver workspaceID deliveryID =>
    simp only [Stmt.run] at hrun
    split at hrun
    · cases hrun; exact .same rfl
    · exact .inserted (.more .none hrun)
  | _ => cases hrun; exact .same rfl

theorem Step.rows {i : Nat} {β : Type} {o : Op β} {w w' : World} {r : β} (h : Step i o w r w') : Rows w.db w'.db := by
  cases o with
  | now => exact .same (by rw [h.2])
  | jitter d => exact .same (by rw [h.2])
  | stmt s =>
    rcases h with ⟨err, -, rfl⟩ | ⟨c, a, db', hrun, -, rfl⟩
    · exact .same rfl
    · exact Stmt.run_rows hrun
  | _ =>
    cases h
    exact .same rfl

theorem next_rows {svc : Service} {p p' : Pool Op World Unit} (h : Pool.Next machine svc.Program p p') :
    Rows p.shared.db p'.shared.db := by
  cases h with
  | start _ _ => exact .same rfl
  | exec _ hs => exact Step.rows hs
  | finish _ => exact .same rfl
  | crash _ => exact .same rfl
  | env hs => exact .same (congrArg Db.deliveries hs.1)

end statements

end Ploykit.Webhooks

import Ploykit.Webhooks.Reach

/-!
# Rounds

A round that runs alone, while nothing fails but receivers, claims every delivery that is
due. It delivers the row or gives it up, or leaves it pending with one attempt more; after
five of these it does not leave it pending.
-/

namespace Ploykit.Webhooks

open Lib

/-- A call while the other sessions wait: no row is locked, and the store does not fail by itself. -/
def Alone : {β : Type} → Op β → World → β → World → Prop
  | _, .stmt s, w, r, w' => ∃ c : Choice, (∀ id, c.skipped id = false) ∧
      ((∃ err, s.run c w.clock w.db = .error err ∧ r = .error err ∧ w' = w) ∨
        ∃ a db', s.run c w.clock w.db = .ok (a, db') ∧ r = .ok a ∧ w' = { w.record (s.events 0 w.db a) with db := db' })
  | _, o, w, r, w' => Step 0 o w r w'

/-- A round with room for every delivery. -/
def FullRound (svc : Service) (w w' : World) : Prop :=
  ∃ batchSize, w.db.deliveries.rows.length ≤ batchSize ∧ Script.Path Alone (svc.deliverPending batchSize) w (.ret ()) w'

/-- Rounds one after the other, each when it is ready. -/
inductive Rounds (svc : Service) (ready : World → Prop) (w : World) : Nat → World → Prop
  | zero : Rounds svc ready w 0 w
  | next {n : Nat} {w₁ w₂ w₃ : World} (h : Rounds svc ready w n w₁) (hwait : machine.env w₁ w₂) (hready : ready w₂)
    (hround : FullRound svc w₂ w₃) : Rounds svc ready w (n + 1) w₃

/-- The time of the next attempt has come. -/
def Waited (id : String) (w : World) : Prop := ∀ row, w.db.delivery id = some row → row.nextAttemptAt ≤ w.clock

/-- It has, and the subscription is active, if it is still there. -/
def Served (id : String) (w : World) : Prop := Waited id w ∧
  ∀ row sub s, w.db.delivery id = some row → row.subscriptionID = some sub → w.db.subscription sub = some s → s.isActive

/-- The delivery is delivered or dead. -/
def Ended (id : String) (db : Db) : Prop := ∃ row, db.delivery id = some row ∧ row.status ≠ .pending

/-- It is pending after `k` attempts. -/
def Tried (id : String) (k : Int) (db : Db) : Prop :=
  ∃ row, db.delivery id = some row ∧ row.status = .pending ∧ row.attempts = k

/-- What an attempt leaves, the `k`-th one. -/
def Attempted (id : String) (k : Int) (db : Db) : Prop := Ended id db ∨ Tried id k db ∧ k ≤ retryBackoff.length

/-! ## Calls and the rows that they are about -/

/-- The call does not touch deliveries. -/
def Op.Sparing : {β : Type} → Op β → Prop
  | _, .stmt (.clearFirstFailure _) => True
  | _, .stmt (.setFirstFailure _) => True
  | _, .stmt (.firstFailureAt _) => True
  | _, .stmt (.setSubscriptionActive _ _ _ _) => True
  | _, .stmt _ => False
  | _, _ => True

/-- The call marks no other row than that of the delivery. -/
def Op.MarksOnly (deliveryID : String) : {β : Type} → Op β → Prop
  | _, .stmt (.markDelivered id _ _) => id = deliveryID
  | _, .stmt (.markRetry id _ _ _ _) => id = deliveryID
  | _, o => o.Sparing

section calls

variable {w w' : World} {id deliveryID : String} {β : Type} {o : Op β} {r : β} {d : PendingDelivery} {svc : Service}

theorem Op.Sparing.deliveries (ho : o.Sparing) (h : Alone o w r w') : w'.db.deliveries = w.db.deliveries := by
  cases o with
  | now => rw [h.2]
  | jitter d => rw [h.2]
  | stmt s =>
    obtain ⟨c, -, ⟨err, -, -, rfl⟩ | ⟨a, db', hrun, -, rfl⟩⟩ := h
    · rfl
    cases s with
    | clearFirstFailure deliveryID =>
      simp only [Stmt.run] at hrun
      split at hrun
      · cases hrun; rfl
      · cases hrun; rfl
    | setFirstFailure deliveryID =>
      simp only [Stmt.run] at hrun
      split at hrun
      · cases hrun; rfl
      · cases hrun; rfl
    | firstFailureAt sub => cases hrun; rfl
    | setSubscriptionActive cause workspaceID sub active =>
      simp only [Stmt.run] at hrun
      split at hrun
      · cases hrun; rfl
      · cases hrun; rfl
    | _ => exact ho.elim
  | _ =>
    cases h
    rfl

theorem Op.MarksOnly.other (ho : o.MarksOnly deliveryID) (hne : id ≠ deliveryID) (h : Alone o w r w') :
    w'.db.delivery id = w.db.delivery id := by
  have hsparing : o.Sparing → w'.db.delivery id = w.db.delivery id := by
    intro hspared
    unfold Db.delivery
    rw [hspared.deliveries h]
  cases o with
  | stmt s =>
    cases s with
    | markDelivered id' statusCode now =>
      obtain ⟨c, -, ⟨err, -, -, rfl⟩ | ⟨a, db', hrun, -, rfl⟩⟩ := h
      · rfl
      · cases hrun
        exact delivery_update_ne _ fun hmem => hne ((List.mem_singleton.1 hmem).trans ho)
    | markRetry id' statusCode errMsg nextAt dead =>
      obtain ⟨c, -, ⟨err, -, -, rfl⟩ | ⟨a, db', hrun, -, rfl⟩⟩ := h
      · rfl
      simp only [Stmt.run] at hrun
      split at hrun
      · cases hrun
      · cases hrun
        exact delivery_update_ne _ fun hmem => hne ((List.mem_singleton.1 hmem).trans ho)
    | _ => exact hsparing ho
  | _ => exact hsparing ho

/-! ### The programs of a round -/

theorem maybeAutoDisable_sparing : (maybeAutoDisable d).Calls Op.Sparing := by
  refine ⟨trivial, fun r => ?_⟩
  match r with
  | .error err => trivial
  | .ok none => trivial
  | .ok (some none) => trivial
  | .ok (some (some ff)) =>
    refine ⟨trivial, fun now => ?_⟩
    simp only [Script.ret_bind]
    split
    · trivial
    · refine ⟨trivial, fun r => ?_⟩
      cases r with
      | error err => trivial
      | ok n => trivial

theorem oldPlain_sparing : (svc.oldPlain d).Calls Op.Sparing := by
  unfold Service.oldPlain
  split
  · trivial
  split
  · trivial
  refine ⟨trivial, fun now => ?_⟩
  simp only [Script.ret_bind]
  split
  · split
    · trivial
    · trivial
  · trivial

theorem Op.Sparing.marksOnly (ho : o.Sparing) : o.MarksOnly deliveryID := by
  cases o with
  | stmt s =>
    cases s with
    | markDelivered => exact ho.elim
    | markRetry => exact ho.elim
    | _ => exact ho
  | _ => exact ho

theorem markRetry_marksOnly {statusCode : Int} {errMsg : String} {nextAt : Time} {dead : Bool} :
    (markRetry d statusCode errMsg nextAt dead).Calls (Op.MarksOnly d.deliveryID) := by
  refine ⟨rfl, fun r => ?_⟩
  have hrest : (if dead then maybeAutoDisable d else pure () : Svc Unit).Calls (Op.MarksOnly d.deliveryID) := by
    split
    · exact maybeAutoDisable_sparing.mono fun o ho => ho.marksOnly
    · trivial
  cases r with
  | error err => exact hrest
  | ok u => exact ⟨trivial, fun r => hrest⟩

theorem Service.deliverOne_marksOnly (svc : Service) (d : PendingDelivery) : (svc.deliverOne d).Calls (Op.MarksOnly d.deliveryID) := by
  refine ⟨trivial, fun now => ⟨trivial, fun valid => ?_⟩⟩
  cases valid with
  | error err => exact markRetry_marksOnly
  | ok u =>
    refine ⟨trivial, fun made => ?_⟩
    cases made with
    | error err => exact ⟨trivial, fun wait => markRetry_marksOnly⟩
    | ok u =>
      refine ⟨trivial, fun answer => ?_⟩
      cases answer with
      | error err => exact ⟨trivial, fun wait => markRetry_marksOnly⟩
      | ok resp =>
        refine Script.Calls.ite (fun _ => ⟨rfl, fun r => ?_⟩) fun _ => ?_
        · cases r with
          | error err => trivial
          | ok u => exact ⟨trivial, fun r => trivial⟩
        · exact Script.Calls.ite (fun _ => markRetry_marksOnly) fun _ => ⟨trivial, fun wait => markRetry_marksOnly⟩

theorem Service.deliverClaimed_marksOnly (svc : Service) (d : PendingDelivery) : (svc.deliverClaimed d).Calls (Op.MarksOnly d.deliveryID) := by
  unfold Service.deliverClaimed
  split
  · exact ⟨trivial, fun now => ⟨trivial, fun wait => markRetry_marksOnly⟩⟩
  · refine Script.Calls.bind (oldPlain_sparing.mono fun o ho => ho.marksOnly) fun old => ?_
    exact svc.deliverOne_marksOnly { d with secret := _, oldPlain := old }

end calls

/-! ## One delivery -/

section attempt

open Script (wp)

variable {w w' : World} {id : String} {k : Int} {β : Type} {o : Op β} {r : β} {d : PendingDelivery} {svc : Service}

/-- What the calls of a program keep that touch no delivery. -/
theorem sparing_wp {α : Type} {m : Svc α} (hm : m.Calls Op.Sparing) {I : Db → Prop}
    (hI : ∀ db db' : Db, db'.deliveries = db.deliveries → I db → I db') (h : I w.db) :
    wp Alone m (fun _ w' => I w'.db) w :=
  hm.wp (I := fun w : World => I w.db) (fun _ _ _ _ ho hs h => hI _ _ (ho.deliveries hs) h) h

theorem attempted_congr (db db' : Db) (heq : db'.deliveries = db.deliveries) (h : Attempted id k db) :
    Attempted id k db' := by
  unfold Attempted Ended Tried Db.delivery at h ⊢
  rw [heq]
  exact h

theorem tried_congr (db db' : Db) (heq : db'.deliveries = db.deliveries) (h : Tried id k db) : Tried id k db' := by
  unfold Tried Db.delivery at h ⊢
  rw [heq]
  exact h

theorem kept_wp {α : Type} {m : Svc α} (hm : m.Calls (Op.MarksOnly d.deliveryID)) (hne : id ≠ d.deliveryID)
    {row : DeliveryRow} (h : w.db.delivery id = some row) : wp Alone m (fun _ w' => w'.db.delivery id = some row) w :=
  hm.wp (I := fun w : World => w.db.delivery id = some row) (fun _ _ _ _ ho hs h => (ho.other hne hs).trans h) h

/-- A retry mark leaves the row pending only where it is told so, and keeps its attempts. -/
theorem retry_attempted {errMsg : String} {statusCode : Int} {nextAt : Time} {dead : Bool} {r : Except Err Unit}
    (hdead : retryBackoff.length < k → dead) (h : Tried id k w.db)
    (hs : Alone (.stmt (.markRetry id statusCode errMsg nextAt dead)) w r w') : Attempted id k w'.db := by
  obtain ⟨row, hrow, hpending, hattempts⟩ := h
  have hfew : ¬ dead → k ≤ retryBackoff.length := fun hnot => not_lt.1 fun hlt => hnot (hdead hlt)
  obtain ⟨c, -, ⟨err, hrun, -, rfl⟩ | ⟨a, db', hrun, -, rfl⟩⟩ := hs
  · simp only [Stmt.run] at hrun
    split at hrun
    · rename_i hclash
      exact .inr ⟨⟨row, hrow, hpending, hattempts⟩, hfew hclash.1⟩
    · cases hrun
  · simp only [Stmt.run] at hrun
    split at hrun
    · cases hrun
    · cases hrun
      have hmarked := delivery_update (f := DeliveryRow.retry statusCode errMsg nextAt dead w.clock) (fun _ => rfl) hrow (.head [])
      cases dead with
      | true => exact .inl ⟨_, hmarked, fun hnot => (by cases hnot)⟩
      | false => exact .inr ⟨⟨_, hmarked, rfl, hattempts⟩, hfew Bool.false_ne_true⟩

theorem markRetry_wp {errMsg : String} {statusCode : Int} {nextAt : Time} {dead : Bool} (hid : d.deliveryID = id)
    (hdead : retryBackoff.length < k → dead) (h : Tried id k w.db) :
    wp Alone (markRetry d statusCode errMsg nextAt dead) (fun _ w' => Attempted id k w'.db) w := by
  subst hid
  intro r w' hs
  have hmarked := retry_attempted hdead h hs
  have hrest : (if dead then maybeAutoDisable d else pure () : Svc Unit).Calls Op.Sparing := by
    split
    · exact maybeAutoDisable_sparing
    · trivial
  cases r with
  | error err => exact sparing_wp hrest attempted_congr hmarked
  | ok u =>
    have hcalls : (exec (.setFirstFailure d.deliveryID) >>= fun _ => if dead then maybeAutoDisable d else pure () :
        Svc Unit).Calls Op.Sparing := ⟨trivial, fun r => hrest⟩
    exact sparing_wp hcalls attempted_congr hmarked

theorem markPlanned_wp {errMsg : String} {statusCode : Int} {now : Time} (hid : d.deliveryID = id) (hk : d.attempts = k)
    (h : Tried id k w.db) : wp Alone (markPlanned d now statusCode errMsg) (fun _ w' => Attempted id k w'.db) w := by
  intro wait w' hs
  obtain ⟨-, rfl⟩ := hs
  exact markRetry_wp hid (fun hlt => decide_eq_true (hk ▸ hlt)) h

theorem markDelivered_wp {statusCode : Int} {now : Time} (h : Tried id k w.db) :
    wp Alone (Repo.markDelivered id statusCode now >>= fun _ => pure ()) (fun _ w' => Attempted id k w'.db) w := by
  intro r w' hs
  obtain ⟨row, hrow, -, -⟩ := h
  obtain ⟨c, -, ⟨err, hrun, -, -⟩ | ⟨a, db', hrun, rfl, rfl⟩⟩ := hs
  · cases hrun
  · cases hrun
    have hmarked := delivery_update (f := DeliveryRow.deliver statusCode now) (fun _ => rfl) hrow (.head [])
    have hended : Attempted id k _ := .inl ⟨_, hmarked, fun hnot => (by cases hnot)⟩
    have hcalls : (exec (.clearFirstFailure id) >>= fun _ => pure () : Svc Unit).Calls Op.Sparing := ⟨trivial, fun r => trivial⟩
    exact sparing_wp hcalls attempted_congr hended

theorem deliverOne_wp (hid : d.deliveryID = id) (hk : d.attempts = k) (h : Tried id k w.db) :
    wp Alone (svc.deliverOne d) (fun _ w' => Attempted id k w'.db) w := by
  intro now w₁ hs
  obtain ⟨-, rfl⟩ := hs
  intro valid w₂ hs
  cases hs
  cases valid with
  | error err => exact markRetry_wp hid (fun _ => rfl) h
  | ok u =>
    intro made w₃ hs
    cases hs
    cases made with
    | error err => exact markPlanned_wp hid hk h
    | ok u =>
      intro answer w₄ hs
      have h : Tried id k w₄.db := tried_congr _ _ (congrArg (fun w : World => w.db.deliveries) hs) h
      cases answer with
      | error err => exact markPlanned_wp hid hk h
      | ok resp =>
        change wp Alone (if _ then _ else _) _ _
        split
        · exact hid ▸ markDelivered_wp (hid ▸ h)
        · change wp Alone (if _ then _ else _) _ _
          split
          · exact markRetry_wp hid (fun _ => rfl) h
          · exact markPlanned_wp hid hk h

theorem deliverClaimed_wp (hid : d.deliveryID = id) (hk : d.attempts = k) (h : Tried id k w.db) :
    wp Alone (svc.deliverClaimed d) (fun _ w' => Attempted id k w'.db) w := by
  unfold Service.deliverClaimed
  split
  · intro now w₁ hs
    obtain ⟨-, rfl⟩ := hs
    exact markPlanned_wp hid hk h
  · refine (Script.wp_bind _ _ _ _).2 (Script.wp_mono ?_ (sparing_wp oldPlain_sparing tried_congr h))
    intro old w₁ h₁
    exact @deliverOne_wp _ _ _ { d with secret := _, oldPlain := old } svc hid hk h₁

/-- What no claimed delivery is about stays as it is. -/
theorem deliverAll_kept {pending : List PendingDelivery} (hnone : ∀ d ∈ pending, id ≠ d.deliveryID) {row : DeliveryRow}
    (h : w.db.delivery id = some row) : wp Alone (svc.deliverAll pending) (fun _ w' => w'.db.delivery id = some row) w := by
  induction pending generalizing w with
  | nil => exact h
  | cons d pending ih =>
    have hfirst := kept_wp (d := d) (svc.deliverClaimed_marksOnly d) (hnone d (.head _)) h
    refine (Script.wp_bind _ _ _ _).2 (Script.wp_mono (fun _ w₁ h₁ => ?_) hfirst)
    exact ih (fun d' hd' => hnone d' (.tail _ hd')) h₁

theorem deliverAll_tries {pending : List PendingDelivery} (hnodup : (pending.map PendingDelivery.deliveryID).Nodup)
    (hd : d ∈ pending) (hid : d.deliveryID = id) (hk : d.attempts = k) (h : Tried id k w.db) :
    wp Alone (svc.deliverAll pending) (fun _ w' => Attempted id k w'.db) w := by
  induction pending generalizing w with
  | nil => cases hd
  | cons d' pending ih =>
    obtain ⟨hnew, hnodup⟩ := List.nodup_cons.1 hnodup
    refine (Script.wp_bind _ _ _ _).2 ?_
    cases hd with
    | head =>
      have hothers : ∀ d' ∈ pending, id ≠ d'.deliveryID := by
        intro d' hd' heq
        exact hnew (hid.trans heq ▸ List.mem_map_of_mem hd')
      refine Script.wp_mono (fun _ w₁ h₁ => ?_) (deliverClaimed_wp hid hk h)
      -- The attempt has been made; no later delivery of the batch is of the row.
      rcases h₁ with ⟨row, hrow, hstatus⟩ | ⟨⟨row, hrow, hstatus⟩, hle⟩
      · exact Script.wp_mono (fun _ w₂ h₂ => .inl ⟨row, h₂, hstatus⟩) (deliverAll_kept hothers hrow)
      · exact Script.wp_mono (fun _ w₂ h₂ => .inr ⟨⟨row, h₂, hstatus⟩, hle⟩) (deliverAll_kept hothers hrow)
    | tail _ hd =>
      have hne : id ≠ d'.deliveryID := by
        intro heq
        exact hnew (heq ▸ hid ▸ List.mem_map_of_mem hd)
      obtain ⟨row, hrow, hstatus⟩ := h
      refine Script.wp_mono (fun _ w₁ h₁ => ?_) (kept_wp (svc.deliverClaimed_marksOnly d') hne hrow)
      exact ih hnodup hd ⟨row, h₁, hstatus⟩

end attempt

/-! ## One round -/

section round

open Script (wp)

variable {w w' : World} {id : String} {k : Int} {svc : Service} {batchSize : Nat}

/-- What a round claims and what it leaves: the row that is due with one attempt more. -/
theorem claim_due {db db' : Db} {c : Choice} {now : Time} {pending : List PendingDelivery} {row : DeliveryRow}
    (hrun : (Stmt.claimPending batchSize).run c now db = .ok (pending, db')) (hskip : ∀ id, c.skipped id = false)
    (hbatch : db.deliveries.rows.length ≤ batchSize) (hrow : db.delivery id = some row) (hdue : db.due now row) :
    db'.delivery id = some (row.claim now) ∧ ∃ d ∈ pending, d.deliveryID = id ∧ d.attempts = row.attempts + 1 := by
  cases hrun
  have hid : row.id = id := Keyed.key_of_get hrow
  have hclaimed : row ∈ db.claimed c now batchSize := by
    unfold Db.claimed
    have hmem : row ∈ db.deliveries.rows.filter fun d => db.due now d ∧ ¬ c.skipped d.id :=
      List.mem_filter.2 ⟨Keyed.mem_of_get hrow, by simp [hdue, hskip]⟩
    rw [List.take_of_length_le]
    · exact (List.perm_insertionSort _ _).mem_iff.2 hmem
    · rw [List.length_insertionSort]
      exact (List.length_filter_le _ _).trans hbatch
  refine ⟨delivery_update _ hrow (hid ▸ List.mem_map_of_mem hclaimed), ?_⟩
  -- A row that is due has its subscription, with which it is returned.
  simp only [Db.due, decide_eq_true_eq] at hdue
  obtain ⟨-, -, s, hs, -⟩ := hdue
  have hreturned : db.pendingDelivery row = some _ := Option.map_eq_some_iff.2 ⟨s, hs, rfl⟩
  refine ⟨_, (c.order_perm _).mem_iff.2 (List.mem_filterMap.2 ⟨row, hclaimed, hreturned⟩), hid, rfl⟩

/-- Nothing claims a row that is not pending. -/
theorem claim_not_due {db db' : Db} {c : Choice} {now : Time} {pending : List PendingDelivery} {row : DeliveryRow}
    (hrun : (Stmt.claimPending batchSize).run c now db = .ok (pending, db')) (hrow : db.delivery id = some row)
    (hended : row.status ≠ .pending) : db'.delivery id = some row ∧ ∀ d ∈ pending, id ≠ d.deliveryID := by
  have hnone : ∀ row' : DeliveryRow, db.delivery id = some row' → db.due now row' → False := by
    intro row' hrow' hdue
    cases Option.some.inj (hrow.symm.trans hrow')
    simp only [Db.due, decide_eq_true_eq] at hdue
    exact hended hdue.1
  have hdues := (claimPending_due hrun).2
  constructor
  · cases hrun
    refine (delivery_update_ne _ fun hmem => ?_).trans hrow
    obtain ⟨row', hrow', hid⟩ := List.mem_map.1 hmem
    obtain ⟨hget, hdue⟩ := claimed_sublist.2 row' hrow'
    exact hnone row' (hid ▸ hget) hdue
  · rintro d hd rfl
    obtain ⟨row', hget, hdue⟩ := hdues d hd
    exact hnone row' hget hdue

/-- The round of a world that has been rid of its orphans. -/
theorem claim_wp {Q : Unit → World → Prop} (h : ∀ (c : Choice) (w₁ : World) (pending : List PendingDelivery)
    (db' : Db), (∀ id, c.skipped id = false) → w₁.clock = w.clock →
      w₁.db = w.db.updateDelivery (w.db.orphans.map DeliveryRow.id) (DeliveryRow.orphan w.clock) (fun _ => rfl) →
      (Stmt.claimPending batchSize).run c w₁.clock w₁.db = .ok (pending, db') → ∀ w₂ : World, w₂.db = db' →
      wp Alone (svc.deliverAll pending) Q w₂) : wp Alone (svc.deliverPending batchSize) Q w := by
  intro r w₁ hs
  obtain ⟨c, -, ⟨err, hrun, -, -⟩ | ⟨a, db₁, hrun, rfl, hw₁⟩⟩ := hs
  · cases hrun
  cases hrun
  intro r w₂ hs
  obtain ⟨c, hskip, ⟨err, hrun, -, -⟩ | ⟨pending, db', hrun, rfl, rfl⟩⟩ := hs
  · cases hrun
  · exact h c w₁ pending db' hskip (hw₁ ▸ rfl) (hw₁ ▸ rfl) hrun _ rfl

theorem round_ended (svc : Service) (batchSize : Nat) (h : Ended id w.db) : wp Alone (svc.deliverPending batchSize) (fun _ w' => Ended id w'.db) w := by
  obtain ⟨row, hrow, hended⟩ := h
  refine claim_wp fun c w₁ pending db' _ _ hw₁ hrun w₂ hw₂ => ?_
  have hrow₁ : w₁.db.delivery id = some row := by
    rw [hw₁]
    refine (delivery_update_ne _ fun hmem => ?_).trans hrow
    obtain ⟨row', horphan, hid⟩ := List.mem_map.1 hmem
    obtain ⟨hmem', horphan⟩ := List.mem_filter.1 horphan
    have hsame : w.db.delivery id = some row' := hid ▸ Keyed.get_of_mem hmem'
    cases Option.some.inj (hrow.symm.trans hsame)
    exact hended (of_decide_eq_true horphan).1
  obtain ⟨hrow', hnone⟩ := claim_not_due hrun hrow₁ hended
  exact Script.wp_mono (fun _ w₃ h₃ => ⟨row, h₃, hended⟩) (deliverAll_kept hnone (hw₂ ▸ hrow'))

/-- One round is one attempt more, or the end of a delivery whose subscription is gone. -/
theorem round_tried (hbatch : w.db.deliveries.rows.length ≤ batchSize) (hserved : Served id w) (h : Tried id k w.db) :
    wp Alone (svc.deliverPending batchSize) (fun _ w' => Attempted id (k + 1) w'.db) w := by
  obtain ⟨row, hrow, hpending, rfl⟩ := h
  have hid : row.id = id := Keyed.key_of_get hrow
  refine claim_wp fun c w₁ pending db' hskip hclock hw₁ hrun w₂ hw₂ => ?_
  cases hsub : row.subscriptionID.bind w.db.subscription with
  | none =>
    have horphan : row ∈ w.db.orphans :=
      List.mem_filter.2 ⟨Keyed.mem_of_get hrow, decide_eq_true ⟨hpending, by rw [hsub]; rfl⟩⟩
    have hrow₁ : w₁.db.delivery id = some (row.orphan w.clock) :=
      hw₁ ▸ delivery_update _ hrow (hid ▸ List.mem_map_of_mem horphan)
    have hended : (row.orphan w.clock).status ≠ .pending := DeliveryStatus.noConfusion
    obtain ⟨hrow', hnone⟩ := claim_not_due hrun hrow₁ hended
    exact Script.wp_mono (fun _ w₃ h₃ => .inl ⟨_, h₃, hended⟩) (deliverAll_kept hnone (hw₂ ▸ hrow'))
  | some s =>
    have hrow₁ : w₁.db.delivery id = some row := by
      rw [hw₁]
      refine (delivery_update_ne _ fun hmem => ?_).trans hrow
      obtain ⟨row', horphan, hid'⟩ := List.mem_map.1 hmem
      obtain ⟨hmem', horphan⟩ := List.mem_filter.1 horphan
      have hsame : w.db.delivery id = some row' := hid' ▸ Keyed.get_of_mem hmem'
      cases Option.some.inj (hrow.symm.trans hsame)
      have hgone := (of_decide_eq_true horphan).2
      rw [hsub] at hgone
      cases hgone
    obtain ⟨sub, hrowsub, hs⟩ := Option.bind_eq_some_iff.1 hsub
    have hdue : w₁.db.due w₁.clock row := by
      simp only [Db.due, decide_eq_true_eq]
      refine ⟨hpending, hclock ▸ hserved.1 row hrow, s, ?_, hserved.2 row sub s hrow hrowsub hs⟩
      rw [hw₁]
      exact hsub
    have hbatch₁ : w₁.db.deliveries.rows.length ≤ batchSize := by
      rw [hw₁]
      exact (List.length_map _).trans_le hbatch
    obtain ⟨hrow', d, hd, hd', hattempts⟩ := claim_due hrun hskip hbatch₁ hrow₁ hdue
    exact deliverAll_tries (claimPending_due hrun).1 hd hd' hattempts (hw₂ ▸ ⟨_, hrow', hpending, rfl⟩)

/-! ## Rounds -/

theorem rounds_attempt {w : World} {n : Nat} {w' : World} (h : Rounds svc (Served id) w n w') (hk : Tried id k w.db) :
    Ended id w'.db ∨ Tried id (k + n) w'.db ∧ (n = 0 ∨ k + n ≤ retryBackoff.length) := by
  induction h with
  | zero => exact .inr ⟨by simpa using hk, .inl rfl⟩
  | @next n w₁ w₂ w₃ _ hwait hserved hround ih =>
    obtain ⟨batchSize, hbatch, hpath⟩ := hround
    rw [← hwait.1] at ih
    rcases ih with hended | ⟨htried, -⟩
    · have hended' := round_ended svc batchSize hended
      exact .inl (Script.wp_path (Q := fun _ w' => Ended id w'.db) hended' hpath)
    · have hmore := Script.wp_path (round_tried hbatch hserved htried) hpath
      rw [Nat.cast_add_one, ← add_assoc]
      exact hmore.imp_right fun hmore => ⟨hmore.1, .inr hmore.2⟩

end round

/-! ## Events and their deliveries -/

/-- What an emission owes: a pending delivery to each active subscription of the workspace that wants the event. -/
def Reached (workspaceID : String) (event : OutboundEvent) (db db' : Db) : Prop :=
  ∀ s ∈ db.subscriptions.rows, s.workspaceID = workspaceID → s.isActive → event.type ∈ s.eventTypes →
    PendingFor db' s.id event.id

theorem Step.reached {i : Nat} {workspaceID : String} {event : OutboundEvent} {n : Nat} {w w' : World}
    (h : Step i (.stmt (.emitForEvent workspaceID event)) w (.ok n) w') : Reached workspaceID event w.db w'.db := by
  intro s hs hworkspace hactive htype
  rcases h with ⟨err, hr, -⟩ | ⟨c, m, db', hrun, -, rfl⟩
  · cases hr
  · exact emit_reaches hrun (List.mem_filter.2 ⟨hs, by simp [hworkspace, hactive, htype]⟩)

/-- The rows of a run, from any pool of it on. -/
theorem run_remains {svc : Service} {past : List (Pool Op World Unit)} {p q : Pool Op World Unit}
    (h : Run (Pool.Next machine svc.Program) p past q) {id : String} {row : DeliveryRow}
    (hrow : p.shared.db.delivery id = some row) : ∃ row', q.shared.db.delivery id = some row' ∧ row.Remains row' := by
  refine h.invariant (I := fun q => ∃ row', q.shared.db.delivery id = some row' ∧ row.Remains row')
    ⟨row, hrow, .refl row⟩ fun q q' hq hstep => ?_
  obtain ⟨row₁, hrow₁, hremains₁⟩ := hq
  obtain ⟨row', hrow', hremains⟩ := (next_rows hstep).remains hrow₁
  exact ⟨row', hrow', hremains₁.trans hremains⟩

theorem World.exec_alone {answer : Nat → World → Except String Response} {β : Type} (o : Op β) (w : World) (r : β)
    (w' : World) (h : World.exec answer 0 o w = some (r, w')) : Alone o w r w' := by
  cases o with
  | stmt s =>
    simp only [World.exec] at h
    split at h
    · rename_i a db' hrun
      cases h
      exact ⟨_, fun _ => rfl, .inr ⟨a, db', hrun, rfl, rfl⟩⟩
    · rename_i err hrun
      cases h
      exact ⟨_, fun _ => rfl, .inl ⟨err, hrun, rfl, rfl⟩⟩
  | _ => exact World.exec_step 0 _ w r w' h

def answerError (_ : Nat) (_ : World) : Except String Response := .ok ⟨500, false⟩

/-- The delivery has been tried five times. -/
def lastTry : World := { loneWorld with db := loneWorld.db.updateDelivery ["delivery"] (fun d => { d with attempts := 5 }) fun _ => rfl }

theorem lastTry_served : Served "delivery" lastTry := by
  constructor
  · intro row hrow
    cases hrow
    exact le_refl _
  · intro row sub s hrow hsub hs
    cases hrow
    cases hsub
    cases hs
    rfl

/-- The subscription of the delivery is paused. -/
def paused : World :=
  { loneWorld with
    db := loneWorld.db.updateSubscription "subscription" (fun s => { s with isActive := false }) fun _ => rfl
    history := [(0, .disabled .request "subscription")] }

theorem paused_round : FullRound plainService paused paused :=
  ⟨1, le_refl _, Script.complete_path (@World.exec_alone answerOK) rfl⟩

theorem paused_rounds (n : Nat) : Rounds plainService (Waited "delivery") paused n paused := by
  induction n with
  | zero => exact .zero
  | succ n ih =>
    refine ih.next ⟨rfl, rfl, le_refl _⟩ (fun row hrow => ?_) paused_round
    cases hrow
    exact le_refl _

end Ploykit.Webhooks

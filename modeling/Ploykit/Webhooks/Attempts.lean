import Ploykit.Lib.Bundles
import Ploykit.Webhooks.Terminal

/-!
# Attempts

A claim counts the attempt before it is made. Where its mark does not come about the row
stays as due as it was, so the next claim comes at once and is one more than the table of
backoffs has room for.
-/

namespace Ploykit.Webhooks

open Lib

/-! ## What a worker plans -/

/-- The deliveries that a worker has claimed and not come to the mark of, and what it has been told for the
first of them: the time, the backoff with what was drawn for it, and whether there is to be no other attempt. -/
structure Plan where
  hand : List PendingDelivery := []
  sent : Bool := false
  reading : Option Time := none
  drawn : Option (Duration × Duration) := none
  refused : Bool := false

namespace Plan

def done (γ : Plan) : Plan := { hand := γ.hand.tail }

def next (γ : Plan) : {β : Type} → Op β → β → Plan
  | _, .now, r => { γ with reading := some r }
  | _, .jitter d, r => { γ with drawn := some (d, r) }
  | _, .validateTarget _, r =>
    match r with
    | .ok _ => { γ with refused := false }
    | .error _ => { γ with refused := true }
  | _, .post _, r =>
    match r with
    | .ok resp => { γ with sent := true, refused := resp.aborts }
    | .error _ => { γ with sent := true, refused := false }
  | _, .stmt (.claimPending _), r =>
    match r with
    | .ok pending => { hand := pending }
    | .error _ => γ
  | _, .stmt (.markDelivered _ _ _), _ => γ.done
  | _, .stmt (.markRetry _ _ _ _ _), _ => γ.done
  | _, _, _ => γ

/-- The mark of an attempt that has failed: it is the last one if the table of backoffs is used up or there is to be
no other one, and otherwise the next one comes after what was drawn for its backoff. -/
structure Marks (γ : Plan) (d : PendingDelivery) (nextAt : Time) (dead : Bool) : Prop where
  last : dead = true ↔ retryBackoff.length < d.attempts ∨ γ.refused = true
  wait : dead = false → ∃ now wait, γ.reading = some now ∧ γ.drawn = some (backoff d.attempts, wait) ∧ nextAt = now + wait

/-- The order of the calls of a session. -/
def allows (γ : Plan) : {β : Type} → Op β → Prop
  | _, .post req => ∃ d rest, γ.hand = d :: rest ∧ γ.sent = false ∧ req.deliveryID = d.deliveryID
  | _, .stmt (.claimPending _) => γ.hand = []
  | _, .stmt (.markDelivered deliveryID _ _) => ∃ d rest, γ.hand = d :: rest ∧ d.deliveryID = deliveryID
  | _, .stmt (.markRetry deliveryID _ _ nextAt dead) =>
    ∃ d rest, γ.hand = d :: rest ∧ d.deliveryID = deliveryID ∧ γ.Marks d nextAt dead
  | _, _ => True

end Plan

def plans : Monitor Op Plan where
  allows γ o := γ.allows o
  next γ o r := γ.next o r
  rests γ := γ.hand = []
  init := {}
  abort _ := {}
  init_rests := rfl
  abort_rests _ := rfl

/-! ### Delivery rounds follow the plan -/

section follows

variable {svc : Service} {γ : Plan} {d d' : PendingDelivery} {rest : List PendingDelivery} {errMsg : String}
  {statusCode : Int} {now nextAt : Time} {dead : Bool}

/-- The round has come to the deliveries `rest`. -/
structure Plan.At (rest : List PendingDelivery) (γ : Plan) : Prop where
  hand : γ.hand = rest
  sent : γ.sent = false
  refused : γ.refused = false

theorem Plan.at_done (hand : γ.hand = d :: rest) : γ.done.At rest := ⟨by rw [done, hand]; rfl, rfl, rfl⟩

theorem Plan.marks_refused (h : γ.refused = true) : γ.Marks d nextAt true :=
  ⟨⟨fun _ => .inr h, fun _ => rfl⟩, fun hdead => by cases hdead⟩

theorem Plan.marks_planned {wait : Duration} (hrefused : γ.refused = false) (hreading : γ.reading = some now)
    (hdrawn : γ.drawn = some (backoff d.attempts, wait)) : γ.Marks d (now + wait) (retryBackoff.length < d.attempts) := by
  refine ⟨?_, fun _ => ⟨now, wait, hreading, hdrawn, rfl⟩⟩
  rw [decide_eq_true_eq, hrefused]
  exact ⟨.inl, fun h => h.resolve_right Bool.false_ne_true⟩

theorem maybeAutoDisable_plans (h : γ.At rest) : (maybeAutoDisable d).Follows plans (fun γ _ => γ.At rest) γ := by
  refine ⟨trivial, fun r => ?_⟩
  match r with
  | .error err => exact h
  | .ok none => exact h
  | .ok (some none) => exact h
  | .ok (some (some ff)) =>
    refine ⟨trivial, fun now => ?_⟩
    simp only [Script.ret_bind]
    split
    · exact ⟨h.hand, h.sent, h.refused⟩
    · refine ⟨trivial, fun r => ?_⟩
      cases r with
      | error err => exact ⟨h.hand, h.sent, h.refused⟩
      | ok n => exact ⟨h.hand, h.sent, h.refused⟩

variable (hand : γ.hand = d :: rest) (hid : d.deliveryID = d'.deliveryID)
include hand hid

theorem markRetry_plans (hmarks : γ.Marks d nextAt dead) :
    (markRetry d' statusCode errMsg nextAt dead).Follows plans (fun γ _ => γ.At rest) γ := by
  have hdone : ∀ γ : Plan, γ.At rest →
      (if dead then maybeAutoDisable d' else pure () : Svc Unit).Follows plans (fun γ _ => γ.At rest) γ := by
    intro γ hγ
    cases dead with
    | true => exact maybeAutoDisable_plans hγ
    | false => exact hγ
  refine ⟨⟨d, rest, hand, hid, hmarks⟩, fun r => ?_⟩
  cases r with
  | error err => exact hdone _ (Plan.at_done hand)
  | ok u => exact ⟨trivial, fun r => hdone _ (Plan.at_done hand)⟩

theorem markPlanned_plans (hattempts : d'.attempts = d.attempts) (hreading : γ.reading = some now)
    (hrefused : γ.refused = false) :
    (markPlanned d' now statusCode errMsg).Follows plans (fun γ _ => γ.At rest) γ := by
  refine ⟨trivial, fun wait => ?_⟩
  rw [hattempts]
  exact markRetry_plans (γ := Plan.next γ (.jitter (backoff d.attempts)) wait) hand hid (Plan.marks_planned hrefused hreading rfl)

theorem markDelivered_plans : (Repo.markDelivered d'.deliveryID statusCode now >>= fun _ => pure ()).Follows plans
    (fun γ _ => γ.At rest) γ := by
  refine ⟨⟨d, rest, hand, hid⟩, fun r => ?_⟩
  cases r with
  | error err => exact Plan.at_done hand
  | ok u => exact ⟨trivial, fun r => Plan.at_done hand⟩

omit hand hid

theorem deliverOne_plans (h : γ.At (d :: rest)) {secret old : String} :
    (svc.deliverOne { d with secret := secret, oldPlain := old }).Follows plans (fun γ _ => γ.At rest) γ := by
  refine ⟨trivial, fun now => ⟨trivial, fun valid => ?_⟩⟩
  simp only [Script.ret_bind]
  cases valid with
  | error err => exact markRetry_plans (by exact h.hand) (by rfl) (Plan.marks_refused rfl)
  | ok u =>
    refine ⟨trivial, fun created => ?_⟩
    simp only [Script.ret_bind]
    cases created with
    | error err => exact markPlanned_plans (by exact h.hand) (by rfl) (by rfl) (by rfl) (by rfl)
    | ok u =>
      refine ⟨⟨d, rest, h.hand, h.sent, rfl⟩, fun answer => ?_⟩
      simp only [Script.ret_bind]
      cases answer with
      | error err => exact markPlanned_plans (by exact h.hand) (by rfl) (by rfl) (by rfl) (by rfl)
      | ok resp =>
        dsimp only
        split
        · exact markDelivered_plans (by exact h.hand) (by rfl)
        split
        · rename_i haborts
          exact markRetry_plans (by exact h.hand) (by rfl) (Plan.marks_refused haborts)
        · rename_i haborts
          exact markPlanned_plans (by exact h.hand) (by rfl) (by rfl) (by rfl) (Bool.eq_false_iff.2 haborts)

theorem oldPlain_plans (h : γ.At rest) : (svc.oldPlain d).Follows plans (fun γ _ => γ.At rest) γ := by
  unfold Service.oldPlain
  split
  · exact h
  split
  · exact h
  refine ⟨trivial, fun now => ?_⟩
  simp only [Script.ret_bind]
  split
  · split
    · exact ⟨h.hand, h.sent, h.refused⟩
    · exact ⟨h.hand, h.sent, h.refused⟩
  · exact ⟨h.hand, h.sent, h.refused⟩

theorem deliverClaimed_plans (h : γ.At (d :: rest)) : (svc.deliverClaimed d).Follows plans (fun γ _ => γ.At rest) γ := by
  unfold Service.deliverClaimed
  split
  · exact ⟨trivial, fun now => markPlanned_plans (by exact h.hand) rfl rfl (by rfl) (by exact h.refused)⟩
  · exact Script.follows_bind ((oldPlain_plans h).mono fun γ old hold => deliverOne_plans hold)

theorem deliverAll_plans {pending : List PendingDelivery} (h : γ.At pending) :
    (svc.deliverAll pending).Follows plans (fun γ _ => γ.hand = []) γ := by
  induction pending generalizing γ with
  | nil => exact h.hand
  | cons d pending ih => exact Script.follows_bind ((deliverClaimed_plans h).mono fun γ _ hγ => ih hγ)

theorem Op.Outside.plans {β : Type} {o : Op β} (h : o.Outside) (γ : Plan) : γ.allows o ∧ ∀ r, (γ.next o r).hand = γ.hand := by
  cases o with
  | post req => exact h.elim
  | validateTarget url =>
    refine ⟨trivial, fun r => ?_⟩
    cases r with
    | error err => rfl
    | ok u => rfl
  | stmt s =>
    cases s with
    | claimPending batchSize => exact h.elim
    | markDelivered deliveryID statusCode now => exact h.elim
    | markRetry deliveryID statusCode errMsg nextAt dead => exact h.elim
    | _ => exact ⟨trivial, fun _ => rfl⟩
  | _ => exact ⟨trivial, fun _ => rfl⟩

theorem plans_outside {m : Svc Unit} (h : m.Calls Op.Outside) : plans.Accepts m := by
  intro γ hγ
  induction m generalizing γ with
  | ret a => exact hγ
  | call o k ih => exact ⟨(h.1.plans γ).1, fun r => ih r (h.2 r) _ (((h.1.plans γ).2 r).trans hγ)⟩

theorem Service.Program.planned {m : Svc Unit} (h : svc.Program m) : plans.Accepts m := by
  rcases h.outside with ⟨batchSize, rfl⟩ | ⟨workspaceID, id, rfl⟩ | houtside
  · intro γ h
    refine ⟨trivial, fun orphaned => ?_⟩
    cases orphaned with
    | error err => exact h
    | ok u =>
      refine ⟨h, fun claimed => ?_⟩
      cases claimed with
      | error err => exact h
      | ok pending => exact deliverAll_plans ⟨rfl, rfl, rfl⟩
  · intro γ h
    refine ⟨trivial, fun minted => ?_⟩
    cases minted with
    | error err => exact h
    | ok secret =>
      refine ⟨trivial, fun sealed => ?_⟩
      cases sealed with
      | error err => exact h
      | ok sealed =>
        refine ⟨trivial, fun now => ⟨trivial, fun rotated => ?_⟩⟩
        cases rotated with
        | error err => exact h
        | ok n =>
          dsimp only [orReturn, Script.ret_bind]
          split
          · exact h
          · exact h
  · exact plans_outside houtside

end follows

/-! ## What there has been -/

def claimsOf (id : String) (h : History) : Nat := h.countP fun e => e.2.claims id

def postsOf (id : String) (h : History) : Nat := h.countP fun e => e.2.posts id

/-- The marks that left the delivery pending. -/
def retriesOf (id : String) (h : History) : Nat := h.countP fun e => e.2 = .marked id .pending

/-- The claims that found the claim before them without a mark. -/
def reclaimsOf (id : String) : History → Nat
  | [] => 0
  | e :: h => reclaimsOf id h + if e.2.claims id ∧ 0 < claimsSinceMark id h then 1 else 0

/-- The last mark, if there is one, has left the delivery pending. -/
def Retriable (id : String) (h : History) : Prop := ∀ e ∈ h.find? fun e => e.2.marks id, e.2 = .marked id .pending

/-- Claims that do not repeat one need a mark between them that leaves the delivery pending. -/
structure Slots (id : String) (h : History) : Prop where
  le : claimsOf id h ≤ reclaimsOf id h + retriesOf id h + 1
  free : claimsSinceMark id h = 0 → Retriable id h → claimsOf id h ≤ reclaimsOf id h + retriesOf id h

section slots

variable {id : String} {h : History} {e : Time × Event} {events : List Event} {w : World}

theorem Event.claims_or_marks {e : Event} (h : e.claims id = true) : e.marks id = false ∧ e ≠ .marked id .pending := by
  cases e with
  | claimed worker d => exact ⟨rfl, Event.noConfusion⟩
  | _ => cases h

theorem claimsSinceMark_claim (he : e.2.claims id = true) : claimsSinceMark id (e :: h) = claimsSinceMark id h + 1 := by
  have hmarks := (Event.claims_or_marks he).1
  rw [claimsSinceMark, sinceMark, List.takeWhile_cons_of_pos (by simp [hmarks])]
  exact List.countP_cons_of_pos (p := fun e : Time × Event => e.2.claims id) he

theorem claimsSinceMark_other (hmarks : e.2.marks id = false) (hclaims : e.2.claims id = false) :
    claimsSinceMark id (e :: h) = claimsSinceMark id h := by
  rw [claimsSinceMark, sinceMark, List.takeWhile_cons_of_pos (by simp [hmarks]), List.countP_cons_of_neg (by simp [hclaims])]
  rfl

theorem retriable_cons (hmarks : e.2.marks id = false) : Retriable id (e :: h) ↔ Retriable id h := by
  rw [Retriable, List.find?_cons_of_neg (by simp [hmarks])]
  rfl

theorem Slots.nil : Slots id [] := ⟨Nat.zero_le _, fun _ _ => Nat.zero_le _⟩

/-- A claim that finds no other one without a mark comes after a mark that has left the delivery pending. -/
theorem Slots.cons (hs : Slots id h) (hclaim : e.2.claims id → Retriable id h) : Slots id (e :: h) := by
  cases hclaims : e.2.claims id with
  | true =>
    obtain ⟨hmarks, hretry⟩ := Event.claims_or_marks hclaims
    have hcount : claimsOf id (e :: h) = claimsOf id h + 1 := List.countP_cons_of_pos hclaims
    have hretries : retriesOf id (e :: h) = retriesOf id h := List.countP_cons_of_neg (by simp [hretry])
    have hsince : claimsSinceMark id (e :: h) = claimsSinceMark id h + 1 := claimsSinceMark_claim hclaims
    refine ⟨?_, fun hzero => by omega⟩
    rw [hcount, hretries, reclaimsOf]
    cases Nat.eq_zero_or_pos (claimsSinceMark id h) with
    | inl hfirst =>
      have hfree := hs.free hfirst (hclaim hclaims)
      omega
    | inr hrepeats =>
      have hle := hs.le
      rw [if_pos ⟨hclaims, hrepeats⟩]
      omega
  | false =>
    have hcount : claimsOf id (e :: h) = claimsOf id h := List.countP_cons_of_neg (by simp [hclaims])
    have hreclaims : reclaimsOf id (e :: h) = reclaimsOf id h := by
      rw [reclaimsOf, if_neg fun hrepeats => Bool.false_ne_true (hclaims.symm.trans hrepeats.1), Nat.add_zero]
    cases hmarks : e.2.marks id with
    | false =>
      have hretry : e.2 ≠ .marked id .pending := fun heq => by simp [heq, Event.marks] at hmarks
      have hretries : retriesOf id (e :: h) = retriesOf id h := List.countP_cons_of_neg (by simp [hretry])
      constructor
      · rw [hcount, hreclaims, hretries]
        exact hs.le
      · rw [hcount, hreclaims, hretries, claimsSinceMark_other hmarks hclaims, retriable_cons hmarks]
        exact hs.free
    | true =>
      have hle := hs.le
      have hmore : retriesOf id h ≤ retriesOf id (e :: h) := (List.sublist_cons_self e h).countP_le
      refine ⟨by omega, fun _ hretriable => ?_⟩
      have hpending : e.2 = .marked id .pending :=
        hretriable e (List.find?_cons_of_pos (p := fun e : Time × Event => e.2.marks id) hmarks)
      have hretries : retriesOf id (e :: h) = retriesOf id h + 1 := List.countP_cons_of_pos (by simp [hpending])
      omega

theorem retriable_record (hmarks : ∀ e ∈ events, e.marks id = false) :
    Retriable id (w.record events).history ↔ Retriable id w.history := by
  induction events with
  | nil => rfl
  | cons e events ih =>
    refine Iff.trans ?_ (ih fun e he => hmarks e (List.mem_cons_of_mem _ he))
    exact retriable_cons (e := (w.clock, e)) (hmarks e List.mem_cons_self)

theorem Slots.record (hs : Slots id w.history) (hmarks : ∀ e ∈ events, e.marks id = false)
    (hclaim : (∃ e ∈ events, e.claims id) → Retriable id w.history) : Slots id (w.record events).history := by
  induction events with
  | nil => exact hs
  | cons e events ih =>
    have hrest : ∀ e ∈ events, e.marks id = false := fun e he => hmarks e (List.mem_cons_of_mem _ he)
    refine Slots.cons (e := (w.clock, e)) (ih hrest fun ⟨e, he, hclaims⟩ => hclaim ⟨e, List.mem_cons_of_mem _ he, hclaims⟩) ?_
    intro hclaims
    exact (retriable_record hrest).2 (hclaim ⟨e, List.mem_cons_self, hclaims⟩)

theorem claimsOf_record : claimsOf id (w.record events).history = events.countP (·.claims id) + claimsOf id w.history := by
  rw [claimsOf, World.record, List.countP_append, List.countP_map]
  rfl

theorem postsOf_record : postsOf id (w.record events).history = events.countP (·.posts id) + postsOf id w.history := by
  rw [postsOf, World.record, List.countP_append, List.countP_map]
  rfl

theorem retriesOf_record : retriesOf id (w.record events).history
    = (events.countP fun e => e = .marked id .pending) + retriesOf id w.history := by
  rw [retriesOf, World.record, List.countP_append, List.countP_map]
  rfl

end slots

/-! ## What the rows count -/

/-- The statement gives deliveries up whose subscription is gone. -/
def Stmt.finalizes : {β : Type} → Stmt β → Bool
  | _, .finalizeOrphans => true
  | _, _ => false

def attemptsOf (db : Db) (id : String) : Int := ((db.delivery id).map DeliveryRow.attempts).getD 0

/-- The row of the delivery, if there is one, is pending. -/
def Open (db : Db) (id : String) : Prop := ∀ row ∈ db.delivery id, row.status = .pending

/-- No attempt is counted, and no row is set back to pending. -/
structure Counts (db db' : Db) : Prop where
  attempts : ∀ id, attemptsOf db' id = attemptsOf db id
  opens : ∀ id, Open db' id → Open db id

/-- And none is given up. -/
structure Kept (db db' : Db) : Prop extends Counts db db' where
  dead : ∀ id, ∀ row' ∈ db'.delivery id, row'.status = .dead → ∃ row ∈ db.delivery id, row.status = .dead

section kept

variable {db db' db'' : Db} {ids : List String} {f : DeliveryRow → DeliveryRow} {hf : ∀ d, (f d).id = d.id}

theorem updateDelivery_cases (hf : ∀ d, (f d).id = d.id) (id : String) : (db.updateDelivery ids f hf).delivery id = (db.delivery id).map f ∧ id ∈ ids
    ∨ (db.updateDelivery ids f hf).delivery id = db.delivery id := by
  by_cases hid : id ∈ ids
  · exact .inl ⟨by rw [Db.delivery, Db.updateDelivery, Keyed.get_update, if_pos hid]; rfl, hid⟩
  · exact .inr (delivery_update_ne hf hid)

theorem updateDelivery_map (id : String) :
    (db.updateDelivery ids f hf).delivery id = (db.delivery id).map fun row => if id ∈ ids then f row else row := by
  rw [Db.delivery, Db.updateDelivery, Keyed.get_update]
  split
  · rfl
  · exact (congrFun Option.map_id (db.delivery id)).symm

theorem attemptsOf_update (hattempts : ∀ d, (f d).attempts = d.attempts) (id : String) :
    attemptsOf (db.updateDelivery ids f hf) id = attemptsOf db id := by
  rcases updateDelivery_cases hf id with ⟨hmap, -⟩ | hsame
  · rw [attemptsOf, attemptsOf, hmap, Option.map_map]
    exact congrArg (fun g => (Option.map g (db.delivery id)).getD 0) (funext hattempts)
  · rw [attemptsOf, attemptsOf, hsame]

theorem Counts.update (hattempts : ∀ d, (f d).attempts = d.attempts)
    (hpending : ∀ d ∈ db.deliveries.rows, d.id ∈ ids → (f d).status = .pending → d.status = .pending) :
    Counts db (db.updateDelivery ids f hf) := by
  refine ⟨attemptsOf_update hattempts, fun id hopen row hrow => ?_⟩
  rcases updateDelivery_cases hf id with ⟨hmap, hid⟩ | hsame
  · cases Keyed.key_of_get hrow
    exact hpending row (Keyed.mem_of_get hrow) hid (hopen (f row) (hmap ▸ Option.mem_map_of_mem f hrow))
  · exact hopen row (hsame ▸ hrow)

theorem Kept.update (hattempts : ∀ d, (f d).attempts = d.attempts) (hstatus : ∀ d, (f d).status = d.status) :
    Kept db (db.updateDelivery ids f hf) := by
  refine ⟨.update hattempts fun d _ _ hpending => (hstatus d).symm.trans hpending, fun id row' hrow' hdead => ?_⟩
  rcases updateDelivery_cases hf id with ⟨hmap, -⟩ | hsame
  · rw [hmap] at hrow'
    obtain ⟨row, hrow, rfl⟩ := Option.mem_map.1 hrow'
    exact ⟨row, hrow, (hstatus row).symm.trans hdead⟩
  · exact ⟨row', hsame ▸ hrow', hdead⟩

theorem Kept.same (h : db'.deliveries = db.deliveries) : Kept db db' := by
  have hdelivery : ∀ id, db'.delivery id = db.delivery id := fun id => by rw [Db.delivery, Db.delivery, h]
  refine ⟨⟨fun id => ?_, fun id hopen => ?_⟩, fun id row' hrow' hdead => ?_⟩
  · rw [attemptsOf, attemptsOf, hdelivery]
  · rwa [Open, hdelivery] at hopen
  · exact ⟨row', hdelivery id ▸ hrow', hdead⟩

theorem Kept.trans (h : Kept db db') (h' : Kept db' db'') : Kept db db'' where
  attempts id := (h'.attempts id).trans (h.attempts id)
  opens id hopen := h.opens id (h'.opens id hopen)
  dead id row hrow hdead := by
    obtain ⟨row', hrow', hdead'⟩ := h'.dead id row hrow hdead
    exact h.dead id row' hrow' hdead'

/-- A delivery that is inserted has not been attempted. -/
theorem Kept.insert {row : DeliveryRow} {r : Option DeliveryRow} (hins : db.insertDelivery row = .ok (r, db'))
    (hattempts : row.attempts = 0) (hstatus : row.status = .pending) : Kept db db' := by
  rcases insertDelivery_ok hins with ⟨-, -, rfl⟩ | ⟨hid, -, -, rfl⟩
  · exact .same rfl
  have hcases : ∀ id, (db.deliveries.insert row hid).get id = if row.id = id then some row else db.delivery id :=
    fun id => Keyed.get_insert
  have hnone : db.delivery row.id = none := hid
  refine ⟨⟨fun id => ?_, fun id hopen row₀ hrow₀ => hopen row₀ ?_⟩, fun id row' hrow' hdead => ?_⟩
  · rw [attemptsOf, attemptsOf, Db.delivery, hcases]
    split
    · rename_i heq
      rw [← heq, hnone]
      exact hattempts
    · rfl
  · rw [Db.delivery, hcases, if_neg]
    · exact hrow₀
    · rintro rfl
      rw [hnone] at hrow₀
      cases hrow₀
  · rw [Db.delivery, hcases] at hrow'
    split at hrow'
    · cases hrow'
      cases hstatus.symm.trans hdead
    · exact ⟨row', hrow', hdead⟩

theorem Kept.emit {c : Choice} {now : Time} {event : OutboundEvent} {subs : List SubscriptionRow} {n : Nat}
    (h : db.emit c now event subs = .ok (n, db')) : Kept db db' := by
  induction subs generalizing db n with
  | nil =>
    cases h
    exact .same rfl
  | cons s subs ih =>
    obtain ⟨r, db₁, m, hins, hemit, -⟩ := emit_cons h
    exact (Kept.insert hins rfl rfl).trans (ih hemit)

theorem orphans_counts {now : Time} :
    Counts db (db.updateDelivery (db.orphans.map DeliveryRow.id) (DeliveryRow.orphan now) fun _ => rfl) :=
  .update (fun _ => rfl) fun _ _ _ h => DeliveryStatus.noConfusion h

/-- The other statements that are no part of an attempt. -/
theorem Stmt.run_kept {β : Type} {s : Stmt β} (hs : s.attempts = false) {c : Choice} {now : Time} {a : β}
    (hrun : s.run c now db = .ok (a, db')) (horphans : s.finalizes = false) : Kept db db' := by
  cases s with
  | finalizeOrphans => cases horphans
  | claimPending batchSize => cases hs
  | markDelivered deliveryID statusCode now => cases hs
  | markRetry deliveryID statusCode errMsg nextAt dead => cases hs
  | emitForEvent workspaceID event => exact .emit hrun
  | enqueuePing workspaceID sub eventID =>
    simp only [Stmt.run] at hrun
    split at hrun
    · cases hrun
      exact .same rfl
    · split at hrun
      · rename_i hins
        cases hrun
        exact .insert hins rfl rfl
      · cases hrun
      · cases hrun
  | redeliver workspaceID deliveryID =>
    simp only [Stmt.run] at hrun
    split at hrun
    · cases hrun
      exact .same rfl
    · exact .insert hrun rfl rfl
  | createSubscription workspaceID eventTypes url secret =>
    simp only [Stmt.run] at hrun
    split at hrun
    · cases hrun
      exact .same rfl
    · cases hrun
  | deleteSubscription workspaceID sub =>
    simp only [Stmt.run] at hrun
    split at hrun
    · cases hrun
      exact .same rfl
    · cases hrun
      have hleft : Kept db (db.updateDelivery (db.deliveries.rows.map DeliveryRow.id)
          (fun d => if d.subscriptionID = some sub then { d with subscriptionID := none } else d) fun d => by split <;> rfl) :=
        .update (fun d => by split <;> rfl) fun d => by split <;> rfl
      exact hleft.trans (.same rfl)
  | clearFirstFailure deliveryID =>
    simp only [Stmt.run] at hrun
    split at hrun
    · cases hrun; exact .same rfl
    · cases hrun; exact .same rfl
  | setFirstFailure deliveryID =>
    simp only [Stmt.run] at hrun
    split at hrun
    · cases hrun; exact .same rfl
    · cases hrun; exact .same rfl
  | setSubscriptionActive cause workspaceID sub active =>
    simp only [Stmt.run] at hrun
    split at hrun
    · cases hrun; exact .same rfl
    · cases hrun; exact .same rfl
  | rotateSecret workspaceID sub newSealed oldExpiresAt =>
    simp only [Stmt.run] at hrun
    split at hrun
    · cases hrun; exact .same rfl
    · cases hrun; exact .same rfl
  | _ => cases hrun; exact .same rfl

theorem Stmt.run_counts {β : Type} {s : Stmt β} (hs : s.attempts = false) {c : Choice} {now : Time} {a : β}
    (hrun : s.run c now db = .ok (a, db')) : Counts db db' := by
  cases hfinal : s.finalizes with
  | false => exact (s.run_kept hs hrun hfinal).toCounts
  | true =>
    cases s with
    | finalizeOrphans =>
      cases hrun
      exact orphans_counts
    | _ => cases hfinal

end kept

/-! ## Attempts are counted before they are made -/

/-- A claimed delivery with the number of its attempt. -/
def PendingDelivery.ticket (d : PendingDelivery) : String × Int := (d.deliveryID, d.attempts)

def Plan.unsent (γ : Plan) : List PendingDelivery := if γ.sent then γ.hand.tail else γ.hand

/-- There has been such an attempt. -/
def Issued (h : History) (t : String × Int) : Prop := 1 ≤ t.2 ∧ t.2 ≤ claimsOf t.1 h

/-- The rows count the claims; what the workers hold has neither been sent nor been set back to pending. -/
structure Attempting (w : World) (γs : Nat → Plan) : Prop where
  attempts : ∀ id, attemptsOf w.db id = claimsOf id w.history
  retriable : ∀ id, Open w.db id → Retriable id w.history
  slots : ∀ id, Slots id w.history
  sent : ∃ used, Bundles (Issued w.history) (fun i => (γs i).unsent.map PendingDelivery.ticket) used
    ∧ ∀ id, postsOf id w.history = used.countP (·.1 = id)
  retried : ∃ used, Bundles (Issued w.history) (fun i => (γs i).hand.map PendingDelivery.ticket) used
    ∧ (∀ t ∈ used, t.2 ≤ retryBackoff.length) ∧ ∀ id, retriesOf id w.history = used.countP (·.1 = id)

theorem Plan.done_unsent {γ : Plan} : γ.done.unsent.Sublist γ.unsent := by
  have hleft : γ.done.unsent = γ.hand.tail := rfl
  rw [hleft, Plan.unsent]
  split
  · exact .refl _
  · exact List.tail_sublist _

namespace Attempting

variable {w w' : World} {γs : Nat → Plan} {i : Nat} {γ : Plan} {events : List Event}

theorem init (hhistory : w.history = []) (hrows : ∀ row ∈ w.db.deliveries.rows, row.attempts = 0) :
    Attempting w fun _ => {} := by
  refine ⟨fun id => ?_, fun id _ => ?_, fun id => ?_, ⟨[], .none _, fun id => ?_⟩, [], .none _, fun t ht => ?_, fun id => ?_⟩
  · rw [hhistory, attemptsOf]
    cases hrow : w.db.delivery id with
    | none => rfl
    | some row => exact hrows row (Keyed.mem_of_get hrow)
  · rw [hhistory]
    exact fun e he => by cases he
  · rw [hhistory]
    exact .nil
  · rw [hhistory]
    rfl
  · cases ht
  · rw [hhistory]
    rfl

theorem map_update (f : Plan → List PendingDelivery) (j : Nat) : (f (Function.update γs i γ j)).map PendingDelivery.ticket
    = Function.update (fun j => (f (γs j)).map PendingDelivery.ticket) i ((f γ).map PendingDelivery.ticket) j :=
  Function.apply_update (fun _ γ => (f γ).map PendingDelivery.ticket) γs i γ j

/-- A call that is no part of an attempt, or after which a worker holds less. -/
theorem keep (h : Attempting w γs) (hhand : γ.hand.Sublist (γs i).hand) (hunsent : γ.unsent.Sublist (γs i).unsent)
    (hquiet : ∀ e ∈ events, e.Quiet) (hw : w'.history = (w.record events).history) (hdb : Counts w.db w'.db) :
    Attempting w' (Function.update γs i γ) := by
  have hclaims : ∀ id, claimsOf id w'.history = claimsOf id w.history := fun id => by
    rw [hw, claimsOf_record, List.countP_eq_zero.2 fun e he => by simp [(hquiet e he id).2.1], Nat.zero_add]
  have hposts : ∀ id, postsOf id w'.history = postsOf id w.history := fun id => by
    rw [hw, postsOf_record, List.countP_eq_zero.2 fun e he => by simp [(hquiet e he id).2.2], Nat.zero_add]
  have hretries : ∀ id, retriesOf id w'.history = retriesOf id w.history := fun id => by
    rw [hw, retriesOf_record, List.countP_eq_zero.2, Nat.zero_add]
    intro e he hmarked
    have hmarks := (hquiet e he id).1
    rw [of_decide_eq_true hmarked] at hmarks
    simp [Event.marks] at hmarks
  have hissued : ∀ t, Issued w.history t → Issued w'.history t := fun t ht => ⟨ht.1, by rw [hclaims]; exact ht.2⟩
  obtain ⟨used, hsent, husent⟩ := h.sent
  obtain ⟨used', hretried, hfew, huretried⟩ := h.retried
  refine ⟨fun id => ?_, fun id hopen => ?_, fun id => ?_, ⟨used, ?_, fun id => ?_⟩, used', ?_, hfew, fun id => ?_⟩
  · rw [hdb.attempts, hclaims]
    exact h.attempts id
  · rw [hw, retriable_record fun e he => (hquiet e he id).1]
    exact h.retriable id (hdb.opens id hopen)
  · rw [hw]
    refine (h.slots id).record (fun e he => (hquiet e he id).1) fun hclaimed => ?_
    obtain ⟨e, he, hclaim⟩ := hclaimed
    exact absurd ((hquiet e he id).2.1.symm.trans hclaim) Bool.false_ne_true
  · exact (hsent.shrink (hunsent.map _)).congr (map_update Plan.unsent) hissued
  · rw [hposts]
    exact husent id
  · exact (hretried.shrink (hhand.map _)).congr (map_update Plan.hand) hissued
  · rw [hretries]
    exact huretried id

/-- The worker sends the delivery that it is at. -/
theorem post (h : Attempting w γs) {d : PendingDelivery} {rest : List PendingDelivery} (hhand : (γs i).hand = d :: rest)
    (hsent : (γs i).sent = false) (hhand' : γ.hand = (γs i).hand) (hsent' : γ.sent = true) {req : Request}
    (hid : req.deliveryID = d.deliveryID) (hdb : w'.db = w.db) (hw : w'.history = (w.record [.posted i req]).history) :
    Attempting w' (Function.update γs i γ) := by
  have hclaims : ∀ id, claimsOf id w'.history = claimsOf id w.history := fun id => by
    rw [hw, claimsOf_record]
    exact Nat.zero_add _
  have hissued : ∀ t, Issued w.history t → Issued w'.history t := fun t ht => ⟨ht.1, by rw [hclaims]; exact ht.2⟩
  have hmarks : ∀ id, ∀ e ∈ [Event.posted i req], e.marks id = false := fun id e he => by
    cases List.mem_singleton.1 he
    rfl
  obtain ⟨used, hbundle, hused⟩ := h.sent
  obtain ⟨used', hretried, hfew, huretried⟩ := h.retried
  have hheld : (γs i).unsent.map PendingDelivery.ticket = d.ticket :: rest.map PendingDelivery.ticket := by
    rw [Plan.unsent, hsent, hhand]
    rfl
  have hleft : γ.unsent = rest := by
    rw [Plan.unsent, hsent', hhand', hhand]
    rfl
  refine ⟨fun id => ?_, fun id hopen => ?_, fun id => ?_, ⟨d.ticket :: used, ?_, fun id => ?_⟩, used', ?_, hfew, fun id => ?_⟩
  · rw [hdb, hclaims]
    exact h.attempts id
  · rw [hw, retriable_record (hmarks id)]
    exact h.retriable id (hdb ▸ hopen)
  · rw [hw]
    refine (h.slots id).record (hmarks id) fun hclaimed => ?_
    obtain ⟨e, he, hclaim⟩ := hclaimed
    cases List.mem_singleton.1 he
    cases hclaim
  · refine (hbundle.use hheld).congr (fun j => ?_) hissued
    rw [map_update Plan.unsent, hleft]
  · rw [hw, postsOf_record, hused, Nat.add_comm]
    simp only [List.countP_cons, List.countP_nil, Event.posts, PendingDelivery.ticket, hid, Nat.zero_add]
  · refine hretried.congr (fun j => ?_) hissued
    rw [map_update Plan.hand, hhand', Function.update_eq_self]
  · rw [hw, retriesOf_record]
    exact (Nat.zero_add _).trans (huretried id)

/-- A worker claims rows that are pending. -/
theorem claim (h : Attempting w γs) {pending : List PendingDelivery} (hnodup : (pending.map PendingDelivery.deliveryID).Nodup)
    (hrows : ∀ d ∈ pending, Open w.db d.deliveryID ∧ d.attempts = attemptsOf w.db d.deliveryID + 1)
    (hcounts : ∀ id, attemptsOf w'.db id = attemptsOf w.db id + (pending.map PendingDelivery.deliveryID).count id)
    (hopens : ∀ id, Open w'.db id → Open w.db id)
    (hw : w'.history = (w.record (pending.map (.claimed i))).history) :
    Attempting w' (Function.update γs i { hand := pending }) := by
  have hclaims : ∀ id, claimsOf id w'.history = (pending.map PendingDelivery.deliveryID).count id + claimsOf id w.history :=
    fun id => by rw [hw, claimsOf_record, claimed_claims]
  have hissued : ∀ t, Issued w.history t → Issued w'.history t := fun t ht =>
    ⟨ht.1, ht.2.trans (by rw [hclaims]; exact_mod_cast Nat.le_add_left _ _)⟩
  have hnew : ∀ t ∈ pending.map PendingDelivery.ticket, Issued w'.history t ∧ ¬ Issued w.history t := by
    intro t ht
    obtain ⟨d, hd, rfl⟩ := List.mem_map.1 ht
    have hone : (pending.map PendingDelivery.deliveryID).count d.deliveryID = 1 :=
      List.count_eq_one_of_mem hnodup (List.mem_map_of_mem hd)
    have hnumber : d.ticket.2 = claimsOf d.deliveryID w.history + 1 := (hrows d hd).2.trans (by rw [h.attempts])
    have hafter : (claimsOf d.deliveryID w'.history : Int) = claimsOf d.deliveryID w.history + 1 := by
      rw [hclaims, hone]
      push_cast
      exact add_comm _ _
    refine ⟨⟨?_, ?_⟩, fun hold => ?_⟩
    · omega
    · exact (hnumber.trans hafter.symm).le
    · have hle : d.ticket.2 ≤ claimsOf d.deliveryID w.history := hold.2
      omega
  have hdistinct : (pending.map PendingDelivery.ticket).Nodup := by
    refine List.Nodup.of_map Prod.fst ?_
    rwa [List.map_map]
  obtain ⟨used, hbundle, hused⟩ := h.sent
  obtain ⟨used', hretried, hfew, huretried⟩ := h.retried
  refine ⟨fun id => ?_, fun id hopen => ?_, fun id => ?_, ⟨used, ?_, fun id => ?_⟩, used', ?_, hfew, fun id => ?_⟩
  · rw [hcounts, hclaims, h.attempts]
    push_cast
    exact add_comm _ _
  · rw [hw, retriable_record (claimed_marks id)]
    exact h.retriable id (hopens id hopen)
  · rw [hw]
    refine (h.slots id).record (claimed_marks id) fun hclaimed => ?_
    obtain ⟨e, he, hclaim⟩ := hclaimed
    obtain ⟨d, hd, rfl⟩ := List.mem_map.1 he
    cases of_decide_eq_true hclaim
    exact h.retriable d.deliveryID (hrows d hd).1
  · exact (hbundle.issue hissued hdistinct hnew).congr (map_update Plan.unsent) fun _ => id
  · rw [hw, postsOf_record, claimed_posts, Nat.zero_add]
    exact hused id
  · exact (hretried.issue hissued hdistinct hnew).congr (map_update Plan.hand) fun _ => id
  · rw [hw, retriesOf_record, List.countP_eq_zero.2, Nat.zero_add]
    · exact huretried id
    · intro e he
      obtain ⟨d, -, rfl⟩ := List.mem_map.1 he
      exact Bool.false_ne_true

/-- The delivery that a worker is at is marked. -/
theorem mark (h : Attempting w γs) {d : PendingDelivery} {rest : List PendingDelivery} (hhand : (γs i).hand = d :: rest)
    {status : DeliveryStatus} (hfew : status = .pending → d.attempts ≤ retryBackoff.length)
    (hcounts : ∀ id, attemptsOf w'.db id = attemptsOf w.db id)
    (hopens : ∀ id, Open w'.db id → if id = d.deliveryID then status = .pending else Open w.db id)
    (hw : w'.history = (w.record [.marked d.deliveryID status]).history) :
    Attempting w' (Function.update γs i (γs i).done) := by
  have hclaims : ∀ id, claimsOf id w'.history = claimsOf id w.history := fun id => by
    rw [hw, claimsOf_record]
    exact Nat.zero_add _
  have hissued : ∀ t, Issued w.history t → Issued w'.history t := fun t ht => ⟨ht.1, by rw [hclaims]; exact ht.2⟩
  have hunsent : (γs i).done.unsent.Sublist (γs i).unsent := Plan.done_unsent
  have hheld : (γs i).hand.map PendingDelivery.ticket = d.ticket :: (γs i).done.hand.map PendingDelivery.ticket := by
    rw [Plan.done, hhand]
    rfl
  obtain ⟨used, hbundle, hused⟩ := h.sent
  obtain ⟨used', hretried, hfew', huretried⟩ := h.retried
  refine ⟨fun id => ?_, fun id hopen => ?_, fun id => ?_, ⟨used, ?_, fun id => ?_⟩, ?_⟩
  · rw [hcounts, hclaims]
    exact h.attempts id
  · have hleft := hopens id hopen
    rw [hw]
    split at hleft
    · rename_i heq
      subst heq hleft
      intro e he
      rw [World.record, List.map_singleton, List.singleton_append, List.find?_cons_of_pos (by simp [Event.marks])] at he
      cases he
      rfl
    · rename_i hne
      rw [retriable_record (marked_marks (Ne.symm hne))]
      exact h.retriable id hleft
  · rw [hw]
    exact (h.slots id).cons fun hclaim => by cases hclaim
  · exact (hbundle.shrink (hunsent.map _)).congr (map_update Plan.unsent) hissued
  · rw [hw, postsOf_record]
    exact (Nat.zero_add _).trans (hused id)
  · cases hstatus : decide (status = .pending) with
    | true =>
      have hpending := of_decide_eq_true hstatus
      refine ⟨d.ticket :: used', (hretried.use hheld).congr (map_update Plan.hand) hissued, ?_, fun id => ?_⟩
      · exact List.forall_mem_cons.2 ⟨hfew hpending, hfew'⟩
      · rw [hw, retriesOf_record, huretried, Nat.add_comm]
        simp only [List.countP_cons, List.countP_nil, PendingDelivery.ticket, hpending, Event.marked.injEq, and_true, Nat.zero_add]
    | false =>
      have hother := of_decide_eq_false hstatus
      refine ⟨used', (hretried.shrink ?_).congr (map_update Plan.hand) hissued, hfew', fun id => ?_⟩
      · exact hheld ▸ List.sublist_cons_self _ _
      · rw [hw, retriesOf_record, huretried, List.countP_cons_of_neg, List.countP_nil, Nat.zero_add]
        simp [hother]

/-- What is issued has a row. -/
theorem row_of_held (h : Attempting w γs) {d : PendingDelivery} (hd : d ∈ (γs i).hand) :
    1 ≤ d.attempts ∧ d.attempts ≤ claimsOf d.deliveryID w.history ∧ ∃ row, w.db.delivery d.deliveryID = some row := by
  obtain ⟨used, hbundle, -⟩ := h.retried
  have hissued : Issued w.history d.ticket := hbundle.held_issued i _ (List.mem_map_of_mem hd)
  refine ⟨hissued.1, hissued.2, Option.ne_none_iff_exists'.1 fun hnone => ?_⟩
  have hcount := h.attempts d.deliveryID
  rw [attemptsOf, hnone] at hcount
  have hle : d.ticket.2 ≤ claimsOf d.deliveryID w.history := hissued.2
  rw [← hcount] at hle
  exact absurd (hissued.1.trans hle) (by decide)

end Attempting

/-! ### Claims and marks of rows -/

section rows

variable {db db' : Db} {c : Choice} {now : Time} {batchSize : Nat} {pending : List PendingDelivery}

/-- A row that is due has its subscription, so that no claimed row is left out of what is returned. -/
theorem claimed_returned (hrun : (Stmt.claimPending batchSize).run c now db = .ok (pending, db')) (id : String) :
    id ∈ pending.map PendingDelivery.deliveryID ↔ id ∈ (db.claimed c now batchSize).map DeliveryRow.id := by
  cases hrun
  rw [((c.order_perm _).map _).mem_iff]
  constructor
  · intro hid
    obtain ⟨d, hd, rfl⟩ := List.mem_map.1 hid
    obtain ⟨row, hrow, hreturned⟩ := List.mem_filterMap.1 hd
    exact pendingDelivery_id hreturned ▸ List.mem_map_of_mem hrow
  · intro hid
    obtain ⟨row, hrow, rfl⟩ := List.mem_map.1 hid
    have hdue := (claimed_sublist.2 row hrow).2
    simp only [Db.due, decide_eq_true_eq] at hdue
    obtain ⟨-, -, sub, hsub, -⟩ := hdue
    have hreturned : db.pendingDelivery row = some _ := Option.map_eq_some_iff.2 ⟨sub, hsub, rfl⟩
    rw [← pendingDelivery_id hreturned]
    exact List.mem_map_of_mem (List.mem_filterMap.2 ⟨row, hrow, hreturned⟩)

theorem claimPending_rows (hrun : (Stmt.claimPending batchSize).run c now db = .ok (pending, db')) (id : String) :
    db'.delivery id = (db.delivery id).map fun row =>
      if id ∈ pending.map PendingDelivery.deliveryID then row.claim now else row := by
  have hids := claimed_returned hrun id
  cases hrun
  simp only [hids]
  exact updateDelivery_map id

theorem claimPending_attempts (hrun : (Stmt.claimPending batchSize).run c now db = .ok (pending, db')) {d : PendingDelivery}
    (hd : d ∈ pending) : Open db d.deliveryID ∧ d.attempts = attemptsOf db d.deliveryID + 1 := by
  cases hrun
  obtain ⟨row, hrow, hreturned⟩ := List.mem_filterMap.1 ((c.order_perm _).mem_iff.1 hd)
  obtain ⟨hget, hdue⟩ := claimed_sublist.2 row hrow
  simp only [Db.due, decide_eq_true_eq] at hdue
  rw [← pendingDelivery_id hreturned] at hget
  constructor
  · intro row' hrow'
    cases Option.some.inj (hget.symm.trans hrow')
    exact hdue.1
  · obtain ⟨sub, -, rfl⟩ := Option.map_eq_some_iff.1 hreturned
    rw [attemptsOf, hget]
    rfl

/-- The claimed rows are counted once each. -/
theorem claimPending_counts (hrun : (Stmt.claimPending batchSize).run c now db = .ok (pending, db')) (id : String) :
    attemptsOf db' id = attemptsOf db id + (pending.map PendingDelivery.deliveryID).count id := by
  rw [(claimPending_due hrun).1.count, attemptsOf, attemptsOf, claimPending_rows hrun]
  split
  · rename_i hmem
    obtain ⟨d, hd, rfl⟩ := List.mem_map.1 hmem
    obtain ⟨row, hrow, -⟩ := (claimPending_due hrun).2 d hd
    rw [hrow]
    rfl
  · rw [Option.map_id_fun']
    exact (add_zero _).symm

theorem claimPending_opens (hrun : (Stmt.claimPending batchSize).run c now db = .ok (pending, db')) (id : String)
    (hopen : Open db' id) : Open db id := by
  intro row hrow
  rw [Open, claimPending_rows hrun, hrow] at hopen
  have hpending := hopen _ rfl
  split at hpending
  · exact hpending
  · exact hpending

variable {deliveryID : String} {f : DeliveryRow → DeliveryRow} {hf : ∀ d, (f d).id = d.id}

theorem marked_opens {status : DeliveryStatus} (hstatus : ∀ d, (f d).status = status) (hrow : ∃ row, db.delivery deliveryID = some row)
    (id : String) (hopen : Open (db.updateDelivery [deliveryID] f hf) id) :
    if id = deliveryID then status = .pending else Open db id := by
  split
  · rename_i hid
    subst hid
    obtain ⟨row, hrow⟩ := hrow
    exact (hstatus row).symm.trans (hopen _ (delivery_update hf hrow List.mem_cons_self))
  · rename_i hid
    rwa [Open, delivery_update_ne hf fun hmem => hid (List.mem_singleton.1 hmem)] at hopen

end rows

theorem Attempting.exec {w w' : World} {γs : Nat → Plan} {i : Nat} {β : Type} {o : Op β} {r : β}
    (h : Attempting w γs) (hallows : (γs i).allows o) (hstep : Step i o w r w') :
    Attempting w' (Function.update γs i ((γs i).next o r)) := by
  have hnone : ∀ e ∈ ([] : List Event), e.Quiet := fun e he => absurd he List.not_mem_nil
  have hsame : ∀ {γ : Plan}, γ.hand = (γs i).hand → γ.sent = (γs i).sent → w' = w → Attempting w' (Function.update γs i γ) := by
    intro γ hhand hsent hw
    have hunsent : γ.unsent = (γs i).unsent := by rw [Plan.unsent, Plan.unsent, hhand, hsent]
    exact h.keep (hhand ▸ .refl _) (hunsent ▸ .refl _) hnone (by rw [hw]; rfl) (hw ▸ (Kept.same rfl).toCounts)
  cases o with
  | now => exact hsame rfl rfl hstep.2
  | jitter d => exact hsame rfl rfl hstep.2
  | validateTarget url =>
    cases r with
    | ok u => exact hsame rfl rfl hstep
    | error err => exact hsame rfl rfl hstep
  | post req =>
    obtain ⟨d, rest, hhand, hsent, hid⟩ := hallows
    obtain ⟨answered, hquiet, hevents⟩ := @postEvents_split i w.db req r
    have hnext : ((γs i).next (.post req) r).hand = (γs i).hand ∧ ((γs i).next (.post req) r).sent = true := by
      cases r with
      | ok resp => exact ⟨rfl, rfl⟩
      | error err => exact ⟨rfl, rfl⟩
    have hposted : Attempting (w.record [.posted i req]) _ := h.post hhand hsent hnext.1 hnext.2 hid rfl rfl
    have hkept : Attempting w' _ := hposted.keep (i := i) (γ := (γs i).next (.post req) r)
      (by rw [Function.update_self]) (by rw [Function.update_self]) hquiet
      (by rw [hstep, hevents, World.record, World.record, List.map_append, List.append_assoc]; rfl)
      (hstep ▸ (Kept.same rfl).toCounts)
    rwa [Function.update_idem] at hkept
  | stmt s =>
    rcases hstep with ⟨err, rfl, rfl⟩ | ⟨c, a, db', hrun, rfl, rfl⟩
    · obtain hsame' | hdone : (γs i).next (.stmt s) (.error err) = γs i ∨ (γs i).next (.stmt s) (.error err) = (γs i).done := by
        cases s with
        | markDelivered deliveryID statusCode now => exact .inr rfl
        | markRetry deliveryID statusCode errMsg nextAt dead => exact .inr rfl
        | _ => exact .inl rfl
      · exact hsame (by rw [hsame']) (by rw [hsame']) rfl
      · rw [hdone]
        exact h.keep (List.tail_sublist _) Plan.done_unsent hnone rfl (Kept.same rfl).toCounts
    cases hs : s.attempts with
    | false =>
      have hnext : (γs i).next (.stmt s) (.ok a) = γs i := by
        cases s with
        | claimPending batchSize => cases hs
        | markDelivered deliveryID statusCode now => cases hs
        | markRetry deliveryID statusCode errMsg nextAt dead => cases hs
        | _ => rfl
      rw [hnext]
      exact h.keep (.refl _) (.refl _) (Stmt.quiet_events hs) rfl (s.run_counts hs hrun)
    | true =>
      cases s with
      | claimPending batchSize =>
        exact h.claim (claimPending_due hrun).1 (fun d => claimPending_attempts hrun) (claimPending_counts hrun)
          (claimPending_opens hrun) rfl
      | markDelivered deliveryID statusCode now =>
        obtain ⟨d, rest, hhand, rfl⟩ := hallows
        have hrow := (h.row_of_held (hhand ▸ List.mem_cons_self)).2.2
        cases hrun
        exact h.mark hhand (fun hpending => by cases hpending) (attemptsOf_update fun _ => rfl) (marked_opens (fun _ => rfl) hrow) rfl
      | markRetry deliveryID statusCode errMsg nextAt dead =>
        obtain ⟨d, rest, hhand, rfl, hmarks⟩ := hallows
        have hrow := (h.row_of_held (hhand ▸ List.mem_cons_self)).2.2
        simp only [Stmt.run] at hrun
        split at hrun
        · cases hrun
        · cases hrun
          refine h.mark hhand (fun hpending => ?_) (attemptsOf_update fun _ => rfl) (marked_opens (fun _ => rfl) hrow) rfl
          refine not_lt.1 fun hused => ?_
          rw [hmarks.last.2 (.inl hused)] at hpending
          cases hpending
      | _ => cases hs
  | _ => exact hsame rfl rfl hstep

/-! ## Waits -/

/-- What has been drawn for a backoff is within a fifth of it. -/
def Plan.Jittered (γ : Plan) : Prop :=
  ∀ asked wait, γ.drawn = some (asked, wait) → 4 * asked ≤ 5 * wait ∧ 5 * wait ≤ 6 * asked

section jittered

variable {w w' : World} {γ : Plan} {i : Nat} {β : Type} {o : Op β} {r : β}

theorem Plan.jittered_none (h : γ.drawn = none) : γ.Jittered := fun asked wait hdrawn => by
  rw [h] at hdrawn
  cases hdrawn

theorem Step.jittered (h : γ.Jittered) (hstep : Step i o w r w') : (γ.next o r).Jittered := by
  cases o with
  | jitter d =>
    intro asked wait hdrawn
    cases hdrawn
    exact hstep.1
  | validateTarget url =>
    cases r with
    | ok u => exact h
    | error err => exact h
  | post req =>
    cases r with
    | ok resp => exact h
    | error err => exact h
  | stmt s =>
    cases s with
    | claimPending batchSize =>
      cases r with
      | ok pending => exact Plan.jittered_none rfl
      | error err => exact h
    | markDelivered deliveryID statusCode now => exact Plan.jittered_none rfl
    | markRetry deliveryID statusCode errMsg nextAt dead => exact Plan.jittered_none rfl
    | _ => exact h
  | _ => exact h

/-- By the table the attempt `k` has a backoff if there is another attempt after it. -/
theorem backoff_entry {k : Int} (hpos : 1 ≤ k) (hfew : k ≤ retryBackoff.length) :
    retryBackoff[(k - 1).toNat]? = some (backoff k) := by
  have hlt : (k - 1).toNat < retryBackoff.length := by omega
  have hidx : max 0 (min (k - 1) (retryBackoff.length - 1)) = k - 1 := by omega
  rw [backoff, hidx, List.getD_eq_getElem?_getD, List.getElem?_eq_getElem hlt]
  rfl

/-- What a mark that leaves the delivery pending waits for. -/
theorem Plan.Marks.waits {d : PendingDelivery} {nextAt : Time} {dead : Bool} (h : γ.Marks d nextAt dead) (hγ : γ.Jittered)
    (hpos : 1 ≤ d.attempts) (hdead : dead = false) : ∃ now wait, γ.reading = some now ∧
      retryBackoff[(d.attempts - 1).toNat]? = some wait ∧ 4 * wait ≤ 5 * (nextAt - now) ∧ 5 * (nextAt - now) ≤ 6 * wait := by
  have hfew : d.attempts ≤ retryBackoff.length := not_lt.1 fun hused => by
    rw [h.last.2 (.inl hused)] at hdead
    cases hdead
  obtain ⟨now, wait, hreading, hdrawn, rfl⟩ := h.wait hdead
  refine ⟨now, backoff d.attempts, hreading, backoff_entry hpos hfew, ?_⟩
  rw [add_sub_cancel_left]
  exact hγ _ _ hdrawn

end jittered

/-! ## Giving up -/

/-- The call gives the delivery up. -/
def Op.givesUp (id : String) (db : Db) : {β : Type} → Op β → Prop
  | _, .stmt (.markRetry deliveryID _ _ _ dead) => deliveryID = id ∧ dead = true
  | _, .stmt .finalizeOrphans => ∃ row ∈ db.orphans, row.id = id
  | _, _ => False

def Dead (db : Db) (id : String) : Prop := ∃ row, db.delivery id = some row ∧ row.status = .dead

section dead

variable {db : Db} {ids : List String} {f : DeliveryRow → DeliveryRow} {hf : ∀ d, (f d).id = d.id} {id : String}

theorem updateDelivery_dead (hdead : Dead (db.updateDelivery ids f hf) id) :
    Dead db id ∨ id ∈ ids ∧ ∃ row, db.delivery id = some row ∧ (f row).status = .dead := by
  obtain ⟨row', hrow', hdead⟩ := hdead
  rcases updateDelivery_cases hf id with ⟨hmap, hid⟩ | hsame
  · obtain ⟨row, hrow, rfl⟩ := Option.map_eq_some_iff.1 (hmap.symm.trans hrow')
    exact .inr ⟨hid, row, hrow, hdead⟩
  · exact .inl ⟨row', hsame ▸ hrow', hdead⟩

theorem Step.dead {i : Nat} {β : Type} {o : Op β} {w w' : World} {r : β} (hstep : Step i o w r w') (hdead : Dead w'.db id) :
    Dead w.db id ∨ o.givesUp id w.db := by
  have hsame : w'.db = w.db → Dead w.db id ∨ o.givesUp id w.db := fun hdb => .inl (hdb ▸ hdead)
  cases o with
  | now => exact hsame (congrArg World.db hstep.2)
  | jitter d => exact hsame (congrArg World.db hstep.2)
  | stmt s =>
    rcases hstep with ⟨err, -, rfl⟩ | ⟨c, a, db', hrun, -, rfl⟩
    · exact hsame rfl
    have hkept : s.attempts = false → s.finalizes = false → Dead w.db id ∨ (Op.stmt s).givesUp id w.db := by
      intro hs hfinal
      obtain ⟨row', hrow', hdead⟩ := hdead
      obtain ⟨row, hrow, hdead⟩ := (s.run_kept hs hrun hfinal).dead id row' hrow' hdead
      exact .inl ⟨row, hrow, hdead⟩
    cases s with
    | finalizeOrphans =>
      cases hrun
      exact (updateDelivery_dead hdead).imp_right fun h => List.mem_map.1 h.1
    | claimPending batchSize =>
      cases hrun
      rcases updateDelivery_dead hdead with hbefore | ⟨-, row, hrow, hdead⟩
      · exact .inl hbefore
      · exact .inl ⟨row, hrow, hdead⟩
    | markDelivered deliveryID statusCode now =>
      cases hrun
      rcases updateDelivery_dead hdead with hbefore | ⟨-, row, -, hdead⟩
      · exact .inl hbefore
      · cases hdead
    | markRetry deliveryID statusCode errMsg nextAt dead =>
      simp only [Stmt.run] at hrun
      split at hrun
      · cases hrun
      · cases hrun
        rcases updateDelivery_dead hdead with hbefore | ⟨hid, row, -, hdead⟩
        · exact .inl hbefore
        · refine .inr ⟨(List.mem_singleton.1 hid).symm, ?_⟩
          cases dead with
          | true => rfl
          | false => cases hdead
    | _ => exact hkept rfl rfl
  | post req =>
    cases hstep
    exact hsame rfl
  | _ => exact hsame (congrArg World.db hstep)

end dead

/-! ## Runs -/

abbrev Planned := Pool Op (World × (Nat → Plan)) Unit

/-- The steps of a pool whose sessions are watched by their plans. -/
abbrev Service.Plans (svc : Service) : Planned → Planned → Prop :=
  Pool.Next ((machine.watched plans).given Pool.unconditional) svc.Program

theorem attempting_run (svc : Service) {w : World} (hw : w.history = []) (hrows : ∀ row ∈ w.db.deliveries.rows, row.attempts = 0)
    {past : List Planned} {p : Planned} (h : Run svc.Plans (Pool.idle (w, fun _ => plans.init)) past p) :
    Attempting p.shared.1 p.shared.2 ∧ ∀ i, (p.shared.2 i).Jittered := by
  refine Pool.watched_invariant (I := fun x => Attempting x.1 x.2 ∧ ∀ i, (x.2 i).Jittered) h (fun m => Service.Program.planned)
    ⟨.init hw hrows, fun i => Plan.jittered_none rfl⟩ ?_ ?_ ?_
  · intro i β o r x x' hx hallows _ hstep hplans
    rw [hplans]
    exact ⟨hx.1.exec hallows hstep, Function.forall_update_iff x.2 (fun _ γ => γ.Jittered) |>.2
      ⟨hstep.jittered (hx.2 i), fun j _ => hx.2 j⟩⟩
  · intro i x hx
    have hquiet : ∀ e ∈ [Event.crashed i], e.Quiet := fun e he => by
      cases List.mem_singleton.1 he
      exact fun id => ⟨rfl, rfl, rfl⟩
    exact ⟨hx.1.keep (List.nil_sublist _) (List.nil_sublist _) hquiet rfl (Kept.same rfl).toCounts,
      Function.forall_update_iff x.2 (fun _ γ => γ.Jittered) |>.2 ⟨Plan.jittered_none rfl, fun j _ => hx.2 j⟩⟩
  · intro x w' hx henv
    obtain ⟨hdb, hhistory, -⟩ := henv
    have hnone : ∀ e ∈ ([] : List Event), e.Quiet := fun e he => absurd he List.not_mem_nil
    have hkept : Attempting w' _ := hx.1.keep (i := 0) (γ := x.2 0) (.refl _) (.refl _) hnone hhistory (Kept.same (by rw [hdb])).toCounts
    rw [Function.update_eq_self] at hkept
    exact ⟨hkept, hx.2⟩

theorem ticket_injective (id : String) : Function.Injective fun k : Nat => (id, (k : Int) + 1) := fun _ _ h =>
  Int.ofNat.inj ((Int.add_left_inj 1).1 (Prod.ext_iff.1 h).2)

/-- The tickets of one delivery up to the number `n`. -/
def tickets (id : String) (n : Nat) : Finset (String × Int) := (Finset.range n).map ⟨fun k : Nat => (id, (k : Int) + 1), ticket_injective id⟩

theorem Attempting.bounded {w : World} {γs : Nat → Plan} (h : Attempting w γs) (id : String) :
    postsOf id w.history ≤ claimsOf id w.history ∧
      claimsOf id w.history ≤ retryBackoff.length + 1 + reclaimsOf id w.history := by
  have hcard : ∀ n : Nat, (tickets id n).card = n := fun n => by simp [tickets]
  have hmem : ∀ {n : Nat} {t : String × Int}, decide (t.1 = id) = true → 1 ≤ t.2 → t.2 ≤ n → t ∈ tickets id n := by
    intro n t hid hpos hle
    have hbelow : (t.2 - 1).toNat < n := by omega
    have hnumber : ((t.2 - 1).toNat : Int) + 1 = t.2 := by omega
    exact Finset.mem_map.2 ⟨(t.2 - 1).toNat, Finset.mem_range.2 hbelow, Prod.ext (of_decide_eq_true hid).symm hnumber⟩
  obtain ⟨used, hsent, hposts⟩ := h.sent
  obtain ⟨used', hretried, hfew, hretries⟩ := h.retried
  constructor
  · rw [hposts, ← hcard (claimsOf id w.history)]
    refine hsent.countP_le fun t ht hid => ?_
    obtain ⟨hpos, hle⟩ := hsent.used_issued t ht
    exact hmem hid hpos (of_decide_eq_true hid ▸ hle)
  · have hle : retriesOf id w.history ≤ retryBackoff.length := by
      rw [hretries, ← hcard retryBackoff.length]
      exact hretried.countP_le fun t ht hid => hmem hid (hretried.used_issued t ht).1 (hfew t ht)
    have hclaims := (h.slots id).le
    omega

/-- In every run that starts without attempts: a delivery is sent at most as often as it is claimed, and claimed at most
once more than there are backoffs, but for the claims that find the one before them without a mark. A failed attempt `k`
leaves it pending for a wait within a fifth of the backoff `k`, or gives it up, which is where the backoffs
are used up or there is to be no other attempt. Only such a mark and the loss of its subscription leave it dead. -/
theorem attempts_bounded (svc : Service) {w : World} (hw : w.history = []) (hrows : ∀ row ∈ w.db.deliveries.rows, row.attempts = 0)
    {past : List Planned} {p : Planned} (h : Run svc.Plans (Pool.idle (w, fun _ => plans.init)) past p) :
    (∀ id, postsOf id p.shared.1.history ≤ claimsOf id p.shared.1.history ∧
      claimsOf id p.shared.1.history ≤ retryBackoff.length + 1 + reclaimsOf id p.shared.1.history) ∧
    (∀ i id statusCode errMsg nextAt dead k, p.session i = some (.call (.stmt (.markRetry id statusCode errMsg nextAt dead)) k) →
      ∃ d rest, (p.shared.2 i).hand = d :: rest ∧ d.deliveryID = id ∧
        1 ≤ d.attempts ∧ d.attempts ≤ claimsOf id p.shared.1.history ∧
        (dead = true ↔ retryBackoff.length < d.attempts ∨ (p.shared.2 i).refused = true) ∧
        (dead = false → ∃ now wait, (p.shared.2 i).reading = some now ∧ retryBackoff[(d.attempts - 1).toNat]? = some wait ∧
          4 * wait ≤ 5 * (nextAt - now) ∧ 5 * (nextAt - now) ≤ 6 * wait)) ∧
    ∀ p' id, svc.Plans p p' → Dead p'.shared.1.db id → Dead p.shared.1.db id ∨
      ∃ (i : Nat) (β : Type) (o : Op β) (k : β → Svc Unit), p.session i = some (.call o k) ∧ o.givesUp id p.shared.1.db := by
  obtain ⟨hattempting, hjittered⟩ := attempting_run svc hw hrows h
  refine ⟨hattempting.bounded, fun i id statusCode errMsg nextAt dead k hi => ?_, fun p' id hstep hdead => ?_⟩
  · have hwatched : p.Watched plans := h.invariant (Pool.watched_idle w) fun _ _ hp hstep =>
      hstep.of_given.watched (fun m => Service.Program.planned) hp
    obtain ⟨d, rest, hhand, rfl, hmarks⟩ := (hwatched.busy hi).1
    obtain ⟨hpos, hle, -⟩ := hattempting.row_of_held (hhand ▸ List.mem_cons_self)
    exact ⟨d, rest, hhand, rfl, hpos, hle, hmarks.last, hmarks.waits (hjittered i) hpos⟩
  · cases hstep with
    | start _ _ => exact .inl hdead
    | @exec i β o k r x' hi hs => exact (Step.dead hs.2.1 hdead).imp_right fun hgives => ⟨i, β, o, k, hi, hgives⟩
    | finish _ => exact .inl hdead
    | crash _ => exact .inl hdead
    | env hs => exact .inl (hs.1.1 ▸ hdead)

/-- A worker whose request fails, and one that delivers after the backoff. -/
theorem attempts_bounded_retried : ∃ past p,
    Run plainService.Plans (Pool.idle (loneWorld, fun _ => plans.init)) past p ∧ postsOf "delivery" p.shared.1.history = 2 ∧
      claimsOf "delivery" p.shared.1.history ≤ retryBackoff.length + 1 + reclaimsOf "delivery" p.shared.1.history := by
  have hlegal : retried.Forall (Turn.Legal machine plainService.Program) :=
    ⟨.deliverPending 20, trivial, trivial, World.wait_env (by decide), .deliverPending 20, trivial⟩
  have hplay : (Pool.play (World.exec answerFirst) retried (Pool.idle loneWorld)).any fun p =>
      postsOf "delivery" p.shared.history = 2 := by decide
  obtain ⟨past, q, hrun, hq⟩ := Pool.play_any World.exec_step hlegal hplay
  obtain ⟨past', p, hwatched, rfl⟩ := Pool.run_watched (W := plans) hrun
  have hrows : ∀ row ∈ loneWorld.db.deliveries.rows, row.attempts = 0 := fun row hrow => by
    cases List.mem_singleton.1 hrow
    rfl
  exact ⟨past', p, hwatched, of_decide_eq_true hq, ((attempts_bounded plainService rfl hrows hwatched).1 "delivery").2⟩

/-- The receiver does not want the delivery. -/
def answerAbort (_ : Nat) (_ : World) : Except String Response := .ok ⟨500, true⟩

/-- A receiver that aborts the delivery has it given up at its first attempt. -/
theorem aborted_early : ¬ ∀ (svc : Service) (w : World) (past : List (Pool Op World Unit)) (p : Pool Op World Unit),
    w.history = [] → (∀ row ∈ w.db.deliveries.rows, row.attempts = 0) → Run (Pool.Next machine svc.Program) (Pool.idle w) past p →
    (∀ id, postsOf id p.shared.history ≤ retryBackoff.length + 1) ∧
      ∀ id row, p.shared.db.delivery id = some row → row.status = .dead → retryBackoff.length < row.attempts := by
  intro h
  have hlegal : [Turn.start 0 (plainService.deliverPending 20), .calls 0 7].Forall (Turn.Legal machine plainService.Program) :=
    ⟨.deliverPending 20, trivial⟩
  have hplay : (Pool.play (World.exec answerAbort) [.start 0 (plainService.deliverPending 20), .calls 0 7] (Pool.idle loneWorld)).any
      fun p => (p.shared.db.delivery "delivery").any fun row => row.status = .dead ∧ row.attempts = 1 := by decide
  obtain ⟨past, p, hrun, hp⟩ := Pool.play_any World.exec_step hlegal hplay
  obtain ⟨row, hrow, hcheck⟩ := Option.any_eq_true _ _ |>.1 hp
  obtain ⟨hdead, hone⟩ := of_decide_eq_true hcheck
  have hrows : ∀ row ∈ loneWorld.db.deliveries.rows, row.attempts = 0 := fun row hrow => by
    cases List.mem_singleton.1 hrow
    rfl
  have hused := (h plainService loneWorld past p rfl hrows hrun).2 "delivery" row hrow hdead
  rw [hone] at hused
  exact absurd hused (by decide)

end Ploykit.Webhooks

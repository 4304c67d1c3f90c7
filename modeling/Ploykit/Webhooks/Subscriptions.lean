import Ploykit.Webhooks.Machine

/-!
# Subscription rows

The row of a subscription changes in six ways, each of which an observer sees. The
statements are looked at once, for one subscription at a time; what holds of the rows
along a run goes through `Change` alone.
-/

namespace Ploykit.Webhooks

open Lib

/-- The event is about the row of the subscription. -/
def Event.touches (sub : String) : Event → Bool
  | .created id _ => id = sub
  | .rotated id _ _ _ => id = sub
  | .activated id => id = sub
  | .disabled _ id => id = sub
  | .failed id => id = sub
  | .cleared id => id = sub
  | _ => false

/-- What may become of the row of a subscription, with what is seen of it. -/
inductive Change (sub : String) (now : Time) : List Event → Option SubscriptionRow → Option SubscriptionRow → Prop
  | untouched {events : List Event} {row : Option SubscriptionRow} (h : ∀ e ∈ events, e.touches sub = false) :
    Change sub now events row row
  | created {row : SubscriptionRow} (hold : row.oldSecret = none) (hexpires : row.oldSecretExpiresAt = none)
    (hfailure : row.firstFailureAt = none) : Change sub now [.created sub row.secret] none (some row)
  | deleted {row : SubscriptionRow} : Change sub now [] (some row) none
  | rotated {row : SubscriptionRow} {newSealed : String} {oldExpiresAt : Time} :
    Change sub now [.rotated sub row.secret oldExpiresAt newSealed] (some row) (some (row.rotate newSealed oldExpiresAt))
  | activated {row : SubscriptionRow} : Change sub now [.activated sub] (some row) (some { row with isActive := true })
  | disabled {row : SubscriptionRow} {cause : Cause} :
    Change sub now [.disabled cause sub] (some row) (some { row with isActive := false })
  | failed {row : SubscriptionRow} (h : row.firstFailureAt = none) :
    Change sub now [.failed sub] (some row) (some { row with firstFailureAt := some now })
  | cleared {row : Option SubscriptionRow} :
    Change sub now [.cleared sub] row (row.map fun s => { s with firstFailureAt := none })

section rows

variable {db : Db} {sub id : String} {now : Time}

theorem Change.nothing {row : Option SubscriptionRow} : Change sub now [] row row :=
  .untouched fun _ he => (List.not_mem_nil he).elim

theorem Change.elsewhere {row : Option SubscriptionRow} {e : Event} (h : e.touches sub = false) :
    Change sub now [e] row row :=
  .untouched fun _ he => List.mem_singleton.1 he ▸ h

theorem subscription_update (f : SubscriptionRow → SubscriptionRow) (hf : ∀ s, (f s).id = s.id) :
    (db.updateSubscription id f hf).subscription id = (db.subscription id).map f := Keyed.get_update_self hf

theorem subscription_update_ne (f : SubscriptionRow → SubscriptionRow) (hf : ∀ s, (f s).id = s.id) (h : sub ≠ id) :
    (db.updateSubscription id f hf).subscription sub = db.subscription sub := Keyed.get_update_ne hf h

theorem subscription_of_own {workspaceID : String} {s : SubscriptionRow} (h : db.ownSubscription workspaceID id = some s) :
    db.subscription id = some s := (Option.filter_eq_some_iff.1 h).1

theorem insertDelivery_subscriptions {db' : Db} {row : DeliveryRow} {r : Option DeliveryRow}
    (h : db.insertDelivery row = .ok (r, db')) : db'.subscriptions = db.subscriptions := by
  rcases insertDelivery_ok h with ⟨-, -, rfl⟩ | ⟨hid, -, -, rfl⟩
  · rfl
  · rfl

theorem emit_subscriptions {db' : Db} {c : Choice} {event : OutboundEvent} {subs : List SubscriptionRow} {n : Nat}
    (h : db.emit c now event subs = .ok (n, db')) : db'.subscriptions = db.subscriptions :=
  emit_keeps (I := fun db' => db'.subscriptions = db.subscriptions)
    (fun _ _ _ _ hins hsame => (insertDelivery_subscriptions hins).trans hsame) h rfl

end rows

theorem Stmt.run_change {β : Type} {s : Stmt β} {c : Choice} {now : Time} {db db' : Db} {a : β}
    (hrun : s.run c now db = .ok (a, db')) (i : Nat) (sub : String) :
    Change sub now (s.events i db a) (db.subscription sub) (db'.subscription sub) := by
  have hsame : db'.subscriptions = db.subscriptions → (∀ e ∈ s.events i db a, e.touches sub = false) →
      Change sub now (s.events i db a) (db.subscription sub) (db'.subscription sub) := by
    intro hdb hevents
    have hrow : db'.subscription sub = db.subscription sub := by rw [Db.subscription, hdb]; rfl
    exact hrow ▸ .untouched hevents
  have hsilent : ∀ e ∈ ([] : List Event), e.touches sub = false := fun _ he => (List.not_mem_nil he).elim
  cases s with
  | claimPending batchSize =>
    cases hrun
    refine hsame rfl fun e he => ?_
    obtain ⟨d, -, rfl⟩ := List.mem_map.1 he
    rfl
  | markDelivered deliveryID statusCode at' =>
    cases hrun
    exact .elsewhere rfl
  | markRetry deliveryID statusCode errMsg nextAt dead =>
    simp only [Stmt.run] at hrun
    split at hrun
    · cases hrun
    · cases hrun
      exact .elsewhere rfl
  | clearFirstFailure deliveryID =>
    simp only [Stmt.run] at hrun
    simp only [Stmt.events]
    cases hof : db.subscriptionOf deliveryID with
    | none =>
      rw [hof] at hrun
      cases hrun
      exact .nothing
    | some id =>
      rw [hof] at hrun
      cases hrun
      by_cases hid : sub = id
      · subst hid
        rw [subscription_update]
        exact .cleared
      · rw [subscription_update_ne _ _ hid]
        exact .elsewhere (decide_eq_false (Ne.symm hid))
  | setFirstFailure deliveryID =>
    simp only [Stmt.run] at hrun
    simp only [Stmt.events]
    cases hof : db.subscriptionOf deliveryID with
    | none =>
      rw [hof] at hrun
      cases hrun
      exact .nothing
    | some id =>
      rw [hof] at hrun
      cases hrun
      rw [Option.bind_some]
      by_cases hid : sub = id
      · subst hid
        rw [subscription_update]
        cases hrow : db.subscription sub with
        | none => exact .nothing
        | some row =>
          have hkey : row.id = sub := Keyed.key_of_get hrow
          cases hfailure : row.firstFailureAt with
          | none => simpa [hfailure, hkey] using Change.failed hfailure
          | some f =>
            have hkeep : { row with firstFailureAt := some f } = row := by rw [← hfailure]
            simpa [hfailure, hkeep] using @Change.nothing sub now (some row)
      · rw [subscription_update_ne _ _ hid]
        cases hrow : db.subscription id with
        | none => exact .nothing
        | some row =>
          have hkey : row.id = id := Keyed.key_of_get hrow
          dsimp only
          split
          · exact .elsewhere (decide_eq_false fun h => hid (h.symm.trans hkey))
          · exact .nothing
  | setSubscriptionActive cause workspaceID id active =>
    simp only [Stmt.run] at hrun
    split at hrun
    · cases hrun
      exact .nothing
    · rename_i row hown
      cases hrun
      by_cases hid : sub = id
      · subst hid
        rw [subscription_update, subscription_of_own hown]
        cases active with
        | true => exact .activated
        | false => exact .disabled
      · rw [subscription_update_ne _ _ hid]
        cases active with
        | true => exact .elsewhere (decide_eq_false (Ne.symm hid))
        | false => exact .elsewhere (decide_eq_false (Ne.symm hid))
  | rotateSecret workspaceID id newSealed oldExpiresAt =>
    simp only [Stmt.run] at hrun
    split at hrun
    · cases hrun
      exact .nothing
    · rename_i row hown
      cases hrun
      have hrow := subscription_of_own hown
      simp only [Stmt.events, hrow]
      by_cases hid : sub = id
      · subst hid
        have hafter := @subscription_update db sub (SubscriptionRow.rotate newSealed oldExpiresAt) fun _ => rfl
        rw [hrow] at hafter ⊢
        exact Eq.subst (motive := Change sub now _ _) hafter.symm .rotated
      · have hafter := @subscription_update_ne db sub id (SubscriptionRow.rotate newSealed oldExpiresAt) (fun _ => rfl) hid
        exact Eq.subst (motive := Change sub now _ _) hafter.symm (.elsewhere (decide_eq_false (Ne.symm hid)))
  | createSubscription workspaceID eventTypes url secret =>
    simp only [Stmt.run] at hrun
    split at hrun
    · rename_i hnone
      cases hrun
      change Change sub now _ (db.subscriptions.get sub) (Keyed.get (db.subscriptions.insert _ hnone) sub)
      rw [Keyed.get_insert]
      split
      · rename_i hid
        subst hid
        rw [hnone]
        exact .created rfl rfl rfl
      · rename_i hid
        exact .elsewhere (decide_eq_false hid)
    · cases hrun
  | deleteSubscription workspaceID id =>
    simp only [Stmt.run] at hrun
    split at hrun
    · cases hrun
      exact .nothing
    · rename_i row hown
      cases hrun
      change Change sub now _ (db.subscriptions.get sub) (Keyed.get (db.subscriptions.erase id) sub)
      rw [Keyed.get_erase]
      split
      · rename_i hid
        subst hid
        rw [show db.subscriptions.get sub = some row from subscription_of_own hown]
        exact .deleted
      · exact .nothing
  | emitForEvent workspaceID event =>
    exact hsame (emit_subscriptions hrun) hsilent
  | enqueuePing workspaceID id eventID =>
    simp only [Stmt.run] at hrun
    split at hrun
    · cases hrun
      exact .nothing
    · split at hrun
      · rename_i hins
        cases hrun
        exact hsame (insertDelivery_subscriptions hins) hsilent
      · cases hrun
      · cases hrun
  | redeliver workspaceID deliveryID =>
    simp only [Stmt.run] at hrun
    split at hrun
    · cases hrun
      exact .nothing
    · exact hsame (insertDelivery_subscriptions hrun) hsilent
  | _ =>
    cases hrun
    exact .nothing

/-! ## Calls -/

theorem Step.history {i : Nat} {β : Type} {o : Op β} {w w' : World} {r : β} (h : Step i o w r w') :
    w'.history = (w.record (o.events i w.db r)).history := by
  cases o with
  | now => exact congrArg World.history h.2
  | jitter d => exact congrArg World.history h.2
  | stmt s =>
    rcases h with ⟨err, rfl, rfl⟩ | ⟨c, a, db', -, rfl, rfl⟩
    · rfl
    · rfl
  | _ =>
    cases h
    rfl

/-- What every call makes of the row of a subscription. -/
theorem Step.change {i : Nat} {β : Type} {o : Op β} {w w' : World} {r : β} (h : Step i o w r w') (sub : String) :
    Change sub w.clock (o.events i w.db r) (w.db.subscription sub) (w'.db.subscription sub) := by
  cases o with
  | now =>
    obtain ⟨-, rfl⟩ := h
    exact .nothing
  | jitter d =>
    obtain ⟨-, rfl⟩ := h
    exact .nothing
  | post req =>
    cases h
    refine .untouched fun e he => ?_
    cases r with
    | error err =>
      cases List.mem_singleton.1 he
      rfl
    | ok resp =>
      rcases List.mem_append.1 he with he | he
      · split at he
        · obtain ⟨id, -, rfl⟩ := List.mem_map.1 he
          rfl
        · cases he
      · cases List.mem_singleton.1 he
        rfl
  | stmt s =>
    rcases h with ⟨err, rfl, rfl⟩ | ⟨c, a, db', hrun, rfl, rfl⟩
    · exact .nothing
    · exact Stmt.run_change hrun i sub
  | _ =>
    cases h
    exact .nothing

end Ploykit.Webhooks

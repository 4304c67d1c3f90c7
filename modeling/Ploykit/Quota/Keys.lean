import Ploykit.Quota.Programs

/-!
# Idempotency keys

A call that may be repeated is recognised by a `Key`: the reservation that is
settled, the release key of a reservation, the key of a consumption, the
reference of a grant. `Db.Claimed` reads off the tables whether a key has been
used. Every effect claims its own keys and no other, and none of them had been
claimed before, so that along a trace each key is applied at most once.
-/

namespace Ploykit.Quota

open Lib Protocol

inductive Key where
  | reserve (k : String × String × String)
  | settle (reservationID : String)
  | release (reservationID idem : String)
  | consume (k : String × String × String)
  | grant (k : String × String × String × String)
  deriving DecidableEq, Repr

/-- The keys that an effect claims. -/
def Effect.keys : Effect → List Key
  | reserve r => [.reserve r.idemKey]
  | settle r _ _ => [.settle r.id]
  | release r _ idem => [.release r.id idem]
  | expire _ _ => []
  | consume _ _ none => []
  | consume ck n (some idem) => [.consume (consumeRow ck n idem).key]
  | free _ _ => []
  | grant gs => gs.map fun g => .grant g.key

/-- The key has been used. -/
def Db.Claimed (db : Db) : Key → Prop
  | .reserve k => k ∈ db.reservations.map Reservation.idemKey
  | .settle id => ∃ r ∈ db.reservations, r.id = id ∧ r.status = .settled
  | .release id idem => ∃ r ∈ db.reservations, r.id = id ∧ idem ∈ r.releaseIdempotencyKeys
  | .consume k => k ∈ db.consumeIdems.map ConsumeIdem.key
  | .grant k => k ∈ db.grants.map Grant.key

instance (db : Db) (k : Key) : Decidable (db.Claimed k) :=
  match k with
  | .reserve _ => inferInstanceAs (Decidable (_ ∈ _))
  | .settle _ => inferInstanceAs (Decidable (∃ _ ∈ _, _))
  | .release _ _ => inferInstanceAs (Decidable (∃ _ ∈ _, _))
  | .consume _ => inferInstanceAs (Decidable (_ ∈ _))
  | .grant _ => inferInstanceAs (Decidable (_ ∈ _))

section effects

variable {π : Policy} {db : Db} {e : Effect}

/-- No effect claims a key twice. -/
theorem keys_nodup (he : Enabled π db e) : e.keys.Nodup := by
  cases e with
  | grant gs =>
    have hkeys : (Effect.grant gs).keys = (gs.map Grant.key).map Key.grant := by
      simp [Effect.keys]
    rw [hkeys]
    exact he.2.map fun k k' h => by cases h; rfl
  | consume ck n idem => cases idem <;> simp [Effect.keys]
  | _ => simp [Effect.keys]

/-- An effect only claims keys that have not been used. -/
theorem keys_unclaimed (h : Inv db) (he : Enabled π db e) {k : Key} (hk : k ∈ e.keys) :
    ¬ db.Claimed k := by
  cases e with
  | reserve r =>
    obtain rfl := List.mem_singleton.1 hk
    exact he.2.1
  | settle r actual idem =>
    obtain rfl := List.mem_singleton.1 hk
    obtain ⟨hr, hlive, -⟩ := he
    rintro ⟨r', hr', hid, hsettled⟩
    have heq : r' = r := List.inj_on_of_nodup_map h.ids hr' hr hid
    rw [heq, hlive] at hsettled
    cases hsettled
  | release r amount idem =>
    obtain rfl := List.mem_singleton.1 hk
    obtain ⟨hr, -, -, -, hfresh⟩ := he
    rintro ⟨r', hr', hid, hmem⟩
    have heq : r' = r := List.inj_on_of_nodup_map h.ids hr' hr hid
    exact hfresh (heq ▸ hmem)
  | expire now rows => cases hk
  | consume ck n idem =>
    cases idem with
    | none => cases hk
    | some idem =>
      obtain rfl := List.mem_singleton.1 hk
      exact he.2.1 idem rfl
  | free ck n => cases hk
  | grant gs =>
    obtain ⟨g, hg, rfl⟩ := List.mem_map.1 hk
    exact (he.1 g hg).2

/-- What an effect on some live rows leaves unclaimed. -/
theorem claimed_modify {db' : Db} (h : Inv db) {rows : List Reservation}
    {f : Reservation → Reservation} {k : Key} {Q : Prop} (hrows : rows ⊆ db.reservations)
    (hkey : ∀ r, (f r).idemKey = r.idemKey)
    (hres : db'.reservations = Table.modify Reservation.id (rows.map Reservation.id) f db.reservations)
    (hidem : db'.consumeIdems = db.consumeIdems) (hgrants : db'.grants = db.grants)
    (hsettled : ∀ id, k = .settle id → ((∃ r ∈ rows, (f r).id = id ∧ (f r).status = .settled) ↔
      (∃ r ∈ rows, r.id = id ∧ r.status = .settled) ∨ Q))
    (hreleased : ∀ id idem, k = .release id idem →
      ((∃ r ∈ rows, (f r).id = id ∧ idem ∈ (f r).releaseIdempotencyKeys) ↔
        (∃ r ∈ rows, r.id = id ∧ idem ∈ r.releaseIdempotencyKeys) ∨ Q))
    (hother : (∀ id, k ≠ .settle id) → (∀ id idem, k ≠ .release id idem) → ¬ Q) :
    db'.Claimed k ↔ db.Claimed k ∨ Q := by
  cases k with
  | settle id =>
    simp only [Db.Claimed, hres]
    exact Table.exists_modify_iff h.ids hrows (fun r => r.id = id ∧ r.status = .settled) Q
      (hsettled id rfl)
  | release id idem =>
    simp only [Db.Claimed, hres]
    exact Table.exists_modify_iff h.ids hrows
      (fun r => r.id = id ∧ idem ∈ r.releaseIdempotencyKeys) Q (hreleased id idem rfl)
  | reserve k =>
    have hQ : ¬ Q := hother (fun _ => by simp) fun _ _ => by simp
    simp only [Db.Claimed, hres, Table.map_modify hkey, hQ, or_false]
  | consume k =>
    have hQ : ¬ Q := hother (fun _ => by simp) fun _ _ => by simp
    simp only [Db.Claimed, hidem, hQ, or_false]
  | grant k =>
    have hQ : ¬ Q := hother (fun _ => by simp) fun _ _ => by simp
    simp only [Db.Claimed, hgrants, hQ, or_false]

/-- An effect claims its keys and no others. -/
theorem claimed_apply (h : Inv db) (he : Enabled π db e) (k : Key) :
    (e.apply db).Claimed k ↔ db.Claimed k ∨ k ∈ e.keys := by
  cases e with
  | reserve r =>
    obtain ⟨hfresh, -⟩ := he
    have hres : ((Effect.reserve r).apply db).reservations = db.reservations ++ [r] := rfl
    cases k with
    | settle id => simp [Db.Claimed, Effect.keys, hres, or_and_right, exists_or, hfresh.status]
    | release id idem =>
      simp [Db.Claimed, Effect.keys, hres, or_and_right, exists_or, hfresh.releaseKeys]
    | reserve k => simp [Db.Claimed, Effect.keys, hres, eq_comm]
    | consume k => simp [Db.Claimed, Effect.keys, Effect.apply, Effect.writes, store, apply]
    | grant k => simp [Db.Claimed, Effect.keys, Effect.apply, Effect.writes, store, apply]
  | settle r actual idem =>
    obtain ⟨hr, hlive, -⟩ := he
    refine @claimed_modify db _ h [r] (Reservation.settle actual idem) k _ (by simpa using hr)
      (settle_idemKey · actual idem) rfl rfl rfl ?_ ?_ ?_
    · rintro id rfl
      simp [Effect.keys, Reservation.settle, hlive, eq_comm]
    · rintro id idem' rfl
      simp [Effect.keys, Reservation.settle, hlive]
    · intro hs _ hk
      exact hs r.id (List.mem_singleton.1 hk)
  | release r amount idem =>
    obtain ⟨hr, hlive, -⟩ := he
    refine @claimed_modify db _ h [r] (Reservation.release amount idem) k _ (by simpa using hr)
      (release_idemKey · amount idem) rfl rfl rfl ?_ ?_ ?_
    · rintro id rfl
      have hne : (r.release amount idem).status ≠ .settled := by
        simp only [Reservation.release, hlive, if_true]
        split <;> simp
      simp [Effect.keys, hne, hlive]
    · rintro id idem' rfl
      simp only [Effect.keys, List.mem_singleton, exists_eq_left, Key.release.injEq,
        Reservation.release, hlive, if_true, List.mem_append, and_or_left]
      simp [eq_comm]
    · intro _ hs hk
      exact hs r.id idem (List.mem_singleton.1 hk)
  | expire now rows =>
    obtain ⟨-, hrows⟩ := he
    refine @claimed_modify db _ h rows Reservation.expire k _ (fun r hr => (hrows r hr).1)
      expire_idemKey rfl rfl rfl ?_ ?_ ?_
    · rintro id rfl
      simp only [Effect.keys, List.not_mem_nil, or_false, Reservation.expire, reduceCtorEq, and_false,
        exists_false, false_iff, not_exists, not_and]
      intro r hr _ hsettled
      rw [(hrows r hr).2.1] at hsettled
      cases hsettled
    · rintro id idem rfl
      simp [Effect.keys, Reservation.expire]
    · intro _ _ hk
      cases hk
  | consume ck n idem =>
    cases idem with
    | none => simp only [Effect.keys, List.not_mem_nil, or_false]; cases k <;> rfl
    | some idem =>
      cases k with
      | consume k => simp [Db.Claimed, Effect.keys, Effect.apply, Effect.writes, store, apply, eq_comm]
      | _ => simp [Db.Claimed, Effect.keys, Effect.apply, Effect.writes, store, apply]
  | free ck n => simp only [Effect.keys, List.not_mem_nil, or_false]; cases k <;> rfl
  | grant gs =>
    have hgrants : ((Effect.grant gs).apply db).grants = db.grants ++ gs := rfl
    cases k with
    | grant k => simp [Db.Claimed, Effect.keys, hgrants]
    | _ => simp [Db.Claimed, Effect.keys, Effect.apply, Effect.writes, store, apply]

end effects

/-! ## Replaying a log -/

/-- The tables after the effects, the latest first. -/
def replay (db₀ : Db) (log : List Effect) : Db := log.foldr Effect.apply db₀

/-- The effects of the log have made `db` out of `db₀`, and have applied every key
at most once: those that are claimed now, but were not before. -/
structure AppliedOnce (db₀ : Db) (log : List Effect) (db : Db) : Prop where
  tables : db = { replay db₀ log with plans := db.plans }
  once : (log.flatMap Effect.keys).Nodup
  unclaimed : ∀ k ∈ log.flatMap Effect.keys, ¬ db₀.Claimed k
  claimed : ∀ k, db.Claimed k ↔ db₀.Claimed k ∨ k ∈ log.flatMap Effect.keys

/-- Effects do not look at the plans. -/
theorem apply_plans (e : Effect) (db : Db) (ps : String → Option Plan) :
    e.apply { db with plans := ps } = { e.apply db with plans := ps } := by
  cases e with
  | consume ck n idem => cases idem <;> rfl
  | _ => rfl

theorem claimed_plans (db : Db) (ps : String → Option Plan) (k : Key) :
    ({ db with plans := ps } : Db).Claimed k ↔ db.Claimed k := by
  cases k <;> rfl

theorem trace_appliedOnce {π : Policy} (L : π.Lawful) {db₀ db : Db} (h₀ : π.J db₀)
    {log : List (Nat × Effect)} (h : (protocol π).Trace db₀ log db) :
    AppliedOnce db₀ (log.map Prod.snd) db := by
  induction h with
  | nil => exact ⟨rfl, List.nodup_nil, by simp, by simp⟩
  | @commit log db db' i e h hl ih =>
    obtain ⟨-, he, rfl⟩ := hl
    have hinv : Inv db := L.inv (h.inv (protocol_lawful L) h₀)
    refine ⟨?_, ?_, ?_, fun k => ?_⟩
    · conv_lhs => rw [ih.tables]
      rw [apply_plans]
      have hplans : (e.apply db).plans = db.plans := by
        cases e with
        | consume ck n idem => cases idem <;> rfl
        | _ => rfl
      simp [replay, hplans]
    · rw [List.map_cons, List.flatMap_cons]
      refine List.Nodup.append (keys_nodup he) ih.once fun k hk hk' => ?_
      exact keys_unclaimed hinv he hk ((ih.claimed k).2 (.inr hk'))
    · rw [List.map_cons, List.flatMap_cons]
      intro k hk hk₀
      rcases List.mem_append.1 hk with hk | hk
      · exact keys_unclaimed hinv he hk ((ih.claimed k).2 (.inl hk₀))
      · exact ih.unclaimed k hk hk₀
    · rw [claimed_apply hinv he, ih.claimed k, List.map_cons, List.flatMap_cons, List.mem_append]
      tauto
  | env _ he ih =>
    obtain ⟨ps, -, rfl⟩ := he
    refine ⟨?_, ih.once, ih.unclaimed, fun k => ?_⟩
    · rw [ih.tables]
    · rw [claimed_plans, ih.claimed]

end Ploykit.Quota

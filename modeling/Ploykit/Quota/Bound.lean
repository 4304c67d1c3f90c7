import Ploykit.Quota.Balance

/-!
# The admission bound

One counter, whose workspace stays on one hard plan. Reservations and
consumptions are admitted by different statements, settlements turn holds into
usage, and all of them race, the first calls of the period included.
-/

namespace Ploykit.Quota

open Lib

/-- Usage and holds of the counter are within limit and grants. -/
def Db.Within (db : Db) (ck : CounterKey) : Prop :=
  (db.counter ck).used + (db.counter ck).reserved ≤ db.limit ck + db.granted ck

instance (db : Db) (ck : CounterKey) : Decidable (db.Within ck) :=
  inferInstanceAs (Decidable (_ ≤ _))

/-- The workspace of `ck` stays on `plan`, settlements take no more than was
outstanding, and usage of `ck` is released by amounts satisfying `frees`. -/
def boundPolicy (ck : CounterKey) (plan : Plan) (frees : Int → Prop) : Policy where
  J := fun db => Inv db ∧ db.planOf ck.workspaceID = plan ∧ db.Within ck
  planEnv := fun ps ps' => ps ck.workspaceID = ps' ck.workspaceID
  settles := fun _ actual outstanding => actual ≤ outstanding
  commits := fun
    | .free ck' n => ck' = ck → frees n
    | _ => True

/-- The policy lets every call be made, apart from releases of usage of the counter
by other amounts. -/
theorem boundPolicy_admits {ck : CounterKey} {plan : Plan} {frees : Int → Prop} {c : Call}
    (h : ∀ ws key n now, c = .release ws key n now → (⟨ws, period now, key⟩ : CounterKey) = ck →
      frees n) : (boundPolicy ck plan frees).admits c := by
  intro e he
  cases c with
  | release ws key n now =>
    subst he
    exact h ws key n now rfl
  | settle id actual idem =>
    obtain ⟨r, -, rfl⟩ := he
    trivial
  | releaseReservation id amount idem =>
    obtain ⟨r, taken, -, rfl⟩ := he
    trivial
  | expireDueReservations now limit =>
    obtain ⟨rows, rfl⟩ := he
    trivial
  | refreshPeriodicGrants now =>
    obtain ⟨gs, -, rfl⟩ := he
    trivial
  | _ =>
    cases he
    trivial

theorem limit_eq {db db' : Db} {ck : CounterKey}
    (h : db.plans ck.workspaceID = db'.plans ck.workspaceID) : db.limit ck = db'.limit ck := by
  simp only [Db.limit, Db.planOf, h]

theorem granted_append (gs gs' : List Grant) (ck : CounterKey) :
    (((gs ++ gs').filter fun g => g.counter = ck).map Grant.amount).sum
      = ((gs.filter fun g => g.counter = ck).map Grant.amount).sum
        + ((gs'.filter fun g => g.counter = ck).map Grant.amount).sum := by
  simp only [List.filter_append, List.map_append, List.sum_append]

theorem granted_nonneg {gs : List Grant} (h : ∀ g ∈ gs, 0 < g.amount) (ck : CounterKey) :
    0 ≤ ((gs.filter fun g => g.counter = ck).map Grant.amount).sum := by
  refine List.sum_nonneg fun x hx => ?_
  obtain ⟨g, hg, rfl⟩ := List.mem_map.1 hx
  exact (h g (List.mem_of_mem_filter hg)).le

/-- Grants are only added. -/
theorem granted_mono {π : Policy} {db db' : Db} (h : Evolves π db db')
    (hpos : ∀ g ∈ db'.grants, 0 < g.amount) (ck : CounterKey) : db.granted ck ≤ db'.granted ck := by
  obtain ⟨gs, hgs⟩ := h.grants
  have hnew : 0 ≤ ((gs.filter fun g => g.counter = ck).map Grant.amount).sum :=
    granted_nonneg (fun g hg => hpos g (hgs ▸ List.mem_append_right _ hg)) ck
  simp only [Db.granted, ← hgs, granted_append]
  omega

section bound

variable {ck : CounterKey} {plan : Plan} {db : Db}

theorem within_reserve {frees : Int → Prop} {r : Reservation}
    (hJ : (boundPolicy ck plan frees).J db)
    (he : Enabled (boundPolicy ck plan frees) db (.reserve r)) :
    ((Effect.reserve r).apply db).Within ck := by
  obtain ⟨hinv, -, hwithin⟩ := hJ
  obtain ⟨-, -, -, db₁, db₂, hadm⟩ := he
  unfold Db.Within
  rw [counter_reserve]
  change (db.counter ck).used + ((db.counter ck).reserved + _) ≤ db.limit ck + db.granted ck
  by_cases hck : r.counter = ck
  · subst hck
    obtain ⟨-, -, hwithin₂⟩ := hadm.inv
    have hlimit₁ := limit_eq hadm.plan.plans
    have hlimit₂ := limit_eq hadm.grants.plans
    have hmono := granted_mono hadm.grants hinv.grants r.counter
    have hcounter : db₂.counter r.counter = db.counter r.counter := by
      simp only [Db.counter, hadm.counter]
    have havail := hadm.avail
    unfold Db.Within at hwithin₂
    rw [hcounter, hlimit₂] at hwithin₂
    rw [hlimit₁] at havail
    have hwrap := havail.trans (wrap64_le (by omega))
    rw [if_pos rfl]
    omega
  · rw [if_neg hck]
    simpa [Db.Within] using hwithin

theorem within_settle {frees : Int → Prop} {r : Reservation} {actual : Int} {idem : String}
    (hJ : (boundPolicy ck plan frees).J db)
    (he : Enabled (boundPolicy ck plan frees) db (.settle r actual idem)) :
    ((Effect.settle r actual idem).apply db).Within ck := by
  obtain ⟨hinv, -, hwithin⟩ := hJ
  obtain ⟨hr, hlive, -, hle⟩ := he
  obtain ⟨c, hc⟩ := hinv.counter_isSome hr hlive
  have hout := hinv.outstanding_le hr hlive
  unfold Db.Within at hwithin ⊢
  rw [counter_settle db r actual idem ck hc]
  change _ ≤ db.limit ck + db.granted ck
  by_cases hck : r.counter = ck
  · subst hck
    have hcounter : db.counter r.counter = c := by simp [Db.counter, hc]
    have hsettle : actual ≤ r.outstanding := hle
    rw [hcounter] at hwithin hout
    rw [if_pos rfl]
    simp only [greatest0]
    omega
  · rw [if_neg hck]
    exact hwithin

theorem within_of_le {e : Effect} (h : db.Within ck) (hplans : (e.apply db).plans = db.plans)
    (hgrants : (e.apply db).grants = db.grants)
    (hused : ((e.apply db).counter ck).used ≤ (db.counter ck).used)
    (hreserved : ((e.apply db).counter ck).reserved ≤ (db.counter ck).reserved) :
    (e.apply db).Within ck := by
  unfold Db.Within at h ⊢
  have hlimit : (e.apply db).limit ck = db.limit ck := limit_eq (by rw [hplans])
  have hgranted : (e.apply db).granted ck = db.granted ck := by simp only [Db.granted, hgrants]
  omega

theorem within_consume {frees : Int → Prop} (hmode : plan.mode = .hard) {ck' : CounterKey} {n : Int}
    {idem : Option String} (hJ : (boundPolicy ck plan frees).J db)
    (he : Enabled (boundPolicy ck plan frees) db (.consume ck' n idem)) :
    ((Effect.consume ck' n idem).apply db).Within ck := by
  obtain ⟨hinv, hplan, hwithin⟩ := hJ
  obtain ⟨hn, -, db₁, db₂, hadm⟩ := he
  by_cases hck : ck' = ck
  · subst hck
    have hplan₁ : db₁.planOf ck'.workspaceID = plan := by
      rw [← hplan]
      simp only [Db.planOf, show db₁.plans ck'.workspaceID = db.plans ck'.workspaceID
        from hadm.plan.plans]
    have hmono := granted_mono hadm.grants hinv.grants ck'
    have hlimit₁ := limit_eq hadm.plan.plans
    rcases hadm.avail with hsoft | ⟨hfit, hfits⟩
    · rw [hplan₁, hmode] at hsoft
      cases hsoft
    · unfold Db.Within
      rw [counter_consume]
      have hsame : ((Effect.consume ck' n idem).apply db).limit ck'
          + ((Effect.consume ck' n idem).apply db).granted ck' = db.limit ck' + db.granted ck' := by
        cases idem <;> rfl
      rw [hsame, if_pos rfl]
      simp only
      cases hc : db.counters ck' with
      | none =>
        simp only [Db.counter, hc, Option.getD_none]
        omega
      | some c =>
        have := hfits c hc
        simp only [Db.counter, hc, Option.getD_some]
        omega
  · refine within_of_le hwithin ?_ ?_ ?_ ?_
    · cases idem <;> rfl
    · cases idem <;> rfl
    · rw [counter_consume, if_neg hck]
      simp
    · rw [counter_consume]

/-- Every effect keeps the bound, as long as no negative usage is released. -/
theorem within_effect (hmode : plan.mode = .hard) {e : Effect}
    (hJ : (boundPolicy ck plan (0 ≤ ·)).J db) (hc : (boundPolicy ck plan (0 ≤ ·)).commits e)
    (he : Enabled (boundPolicy ck plan (0 ≤ ·)) db e) : (e.apply db).Within ck := by
  have hinv := hJ.1
  have hwithin := hJ.2.2
  cases e with
  | reserve r => exact within_reserve hJ he
  | settle r actual idem => exact within_settle hJ he
  | consume ck' n idem => exact within_consume hmode hJ he
  | release r amount idem =>
    obtain ⟨hr, hlive, hnonneg, hle, -⟩ := he
    have hcounter := counter_release db r amount idem ck hnonneg
      (hle.trans (hinv.outstanding_le hr hlive))
    refine within_of_le hwithin rfl rfl ?_ ?_ <;> rw [hcounter]
    simp only
    split <;> omega
  | expire now rows =>
    refine within_of_le hwithin rfl rfl ?_ ?_ <;> rw [hinv.counter_expire he]
    have hnonneg : 0 ≤ (rows.map (Reservation.heldFor ck)).sum :=
      List.sum_nonneg (by simpa using fun r hr => heldFor_nonneg (hinv.rows r (he.2 r hr).1) ck)
    simp only
    omega
  | free ck' n =>
    have hused := hinv.used ck
    refine within_of_le hwithin rfl rfl ?_ ?_ <;> rw [counter_free] <;> split
    · rename_i hck
      have hn : 0 ≤ n := hc hck.1.symm
      simp only [greatest0]
      omega
    · exact le_rfl
    · exact le_rfl
    · exact le_rfl
  | grant gs =>
    have hev : Evolves (boundPolicy ck plan (0 ≤ ·)) db ((Effect.grant gs).apply db) :=
      ⟨rfl, List.prefix_append _ gs, List.prefix_rfl, fun r hr => ⟨r, hr, .refl r⟩⟩
    have hmono := granted_mono hev (hinv.grant he).grants ck
    exact hwithin.trans (Int.add_le_add_left hmono _)

end bound

theorem boundPolicy_lawful {ck : CounterKey} {plan : Plan} (hmode : plan.mode = .hard) :
    (boundPolicy ck plan (0 ≤ ·)).Lawful where
  inv h := h.1
  plan_refl _ := rfl
  plan_trans h h' := h.trans h'
  effect {db e} h hc he := by
    refine ⟨h.1.effect he, ?_, within_effect hmode h hc he⟩
    rw [← h.2.1]
    cases e with
    | consume ck' n idem => cases idem <;> rfl
    | _ => rfl
  plans {db ps} h hps := by
    obtain ⟨hinv, hplan, hwithin⟩ := h
    refine ⟨hinv.plans ps, ?_, ?_⟩
    · rw [← hplan]
      simp only [Db.planOf, show db.plans ck.workspaceID = ps ck.workspaceID from hps]
    · have hlimit : ({ db with plans := ps } : Db).limit ck = db.limit ck := limit_eq hps.symm
      unfold Db.Within at hwithin ⊢
      rw [hlimit]
      exact hwithin

/-- While a workspace stays on a hard plan, usage and holds of a counter that is
within limit and grants stay so in every run whose `Release` calls on it have an
amount of at least zero. -/
theorem within_of_release_nonneg {ck : CounterKey} {db₀ : Db} (h₀ : Inv db₀)
    (hmode : (db₀.planOf ck.workspaceID).mode = .hard) (hwithin : db₀.Within ck)
    {past : List (Pool (TxOp Stmt PgErr) (Store.Sys Db Resource Write) Ended)}
    {p : Pool (TxOp Stmt PgErr) (Store.Sys Db Resource Write) Ended}
    (h : QuotaRun (boundPolicy ck (db₀.planOf ck.workspaceID) (0 ≤ ·)) db₀ past p) :
    (p.shared.db.counter ck).used + (p.shared.db.counter ck).reserved
      ≤ (db₀.planOf ck.workspaceID).limit ck.counterKey + p.shared.db.granted ck := by
  obtain ⟨log, cur, hgood, -⟩ := run_sound (boundPolicy_lawful hmode) ⟨h₀, rfl, hwithin⟩ h
  obtain ⟨-, hplan, hend⟩ := hgood.inv
  rw [← hplan]
  exact hend

/-- One seat is consumed, half of the limit is reserved, one seat is released. -/
def consumeAndRelease : List Call :=
  [.consume "w" "seats" 1 newYear, .reserve "w" "seats" 25 "a" {} ⟨newYear, newYear, "r1"⟩,
    .release "w" "seats" 1 newYear]

theorem within_of_release_nonneg_consumeAndRelease :
    ((runCalls freshDb consumeAndRelease).counter ⟨"w", "2026-01", "seats"⟩).reserved = 25 ∧
    ((runCalls freshDb consumeAndRelease).counter ⟨"w", "2026-01", "seats"⟩).used
      + ((runCalls freshDb consumeAndRelease).counter ⟨"w", "2026-01", "seats"⟩).reserved
      ≤ 50 + (runCalls freshDb consumeAndRelease).granted ⟨"w", "2026-01", "seats"⟩ := by
  have hplain : plainCalls freshDb consumeAndRelease = true := by decide
  have hadmit : ∀ c ∈ consumeAndRelease,
      (boundPolicy ⟨"w", "2026-01", "seats"⟩ (freshDb.planOf "w") (0 ≤ ·)).admits c := by
    refine fun c hc => boundPolicy_admits fun ws key n now hrel _ => ?_
    subst hrel
    simp only [consumeAndRelease, List.mem_cons, reduceCtorEq, Call.release.injEq, List.not_mem_nil,
      or_false, false_or] at hc
    omega
  obtain ⟨past, hrun⟩ := quotaRun_calls hadmit hplain
  exact ⟨by decide, within_of_release_nonneg freshDb_inv rfl (by decide) hrun⟩

/-- A consumption of one seat, and a release of minus a thousand. -/
def consumeAndOverdraw : List Call :=
  [.consume "w" "seats" 1 newYear, .release "w" "seats" (-1000) newYear]

/-- `Release` does not check its amount: a negative one counts as usage that no
limit admits. -/
theorem release_negative_overdraws :
    (∃ past, QuotaRun (boundPolicy ⟨"w", "2026-01", "seats"⟩ (freshDb.planOf "w") fun _ => True)
      freshDb past (.idle (.quiet (runCalls freshDb consumeAndOverdraw)))) ∧
    (freshDb.planOf "w").mode = .hard ∧ Inv freshDb ∧
    freshDb.Within ⟨"w", "2026-01", "seats"⟩ ∧
    ¬ (runCalls freshDb consumeAndOverdraw).Within ⟨"w", "2026-01", "seats"⟩ := by
  refine ⟨quotaRun_calls ?_ (by decide), rfl, freshDb_inv, by decide, by decide⟩
  exact fun c _ => boundPolicy_admits fun _ _ _ _ _ _ => trivial

end Ploykit.Quota

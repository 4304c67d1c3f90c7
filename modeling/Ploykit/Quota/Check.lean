import Ploykit.Quota.Bound
import Ploykit.Quota.Replay

/-!
# Checks

`Check` reads the plan and the columns of one counter and leaves the verdict to
`Status.Exceeded`, in Go; `Consume` leaves it to the WHERE of its upsert. What is
held by live reservations is in the columns that both read, but counts only for
the upsert, and a plan without a limit is for the upsert a limit of 2^62.
-/

namespace Ploykit.Quota

open Lib

/-! ## The check -/

structure Status where
  key : String
  limit : Int
  used : Int
  granted : Int
  reserved : Int
  period : String
  deriving DecidableEq

def Status.exceeded (st : Status) : Bool :=
  st.limit ≥ 0 && st.used ≥ wrap64 (st.limit + st.granted)

/-- `limits[key]`, as the plan has it. -/
def Plan.limits? (plan : Plan) (key : String) : Int := (plan.limits.lookup key).getD 0

/-- The used, granted and reserved amounts; the sum of the grants is a bigint. -/
def usageOf (db : Db) (ck : CounterKey) : Except PgErr (Int × Int × Int) := do
  checkBigint (db.granted ck)
  return ((db.counter ck).used, db.granted ck, (db.counter ck).reserved)

def check (db : Db) (workspaceID key : String) (now : Time) : Except PgErr Status := do
  let limits := db.planOf workspaceID
  let (used, granted, reserved) ← usageOf db ⟨workspaceID, period now, key⟩
  return { key, limit := limits.limits? key, used, granted, reserved, period := period now }

/-! ## What a consumption alone does -/

section admission

variable {db : Db} {ck : CounterKey} {n : Int}

/-- The upsert of hard mode applies only where there is room. -/
theorem room_of_addUsedWithin {limit granted : Int} {held : Resource → Bool}
    {o : Outcome Resource Write Bool}
    (h : eval (.addUsedWithin ck n limit granted) held db = .ok o) (hvalue : o.value = true) :
    Bigint (limit + granted) ∧
      (db.counter ck).used + n + (db.counter ck).reserved ≤ limit + granted := by
  have hbig : Bigint (limit + granted) := by
    simp only [eval, Except.bind_eq_ok, checkBigint_ok, exists_const] at h
    exact h.1
  refine ⟨hbig, ?_⟩
  rcases eval_addUsedWithin h with ⟨hno, -⟩ | ⟨-, hle, hrow⟩
  · rw [hno] at hvalue
    cases hvalue
  · cases hc : db.counters ck with
    | none => simpa [Db.counter, hc] using hle
    | some c => simpa [Db.counter, hc] using hrow c hc

/-- In hard mode a consumption that runs alone is admitted exactly where usage,
holds and the amount fit under the limit and the grants. -/
theorem consume_admitted_iff {ws key : String} {now : Time} (h : Inv db) (hn : 0 < n)
    (hmode : (db.planOf ws).mode = .hard) :
    (store.runSolo (consume ws key n now).run db).1 = .ok () ↔
      db.HasRoom ⟨ws, period now, key⟩ n := by
  set ck : CounterKey := ⟨ws, period now, key⟩ with hck
  have hlimit : (db.planOf ws).limit key = db.limit ck := rfl
  have hblank : Strings.trimSpace "" = "" := by decide
  refine Store.sp_runSolo (Q := fun r _ _ => r = .ok () ↔ db.HasRoom ck n) ?_
  unfold consume consumeWith consumeOnce
  refine Store.sp_bind (Store.sp_ite (fun hle => absurd hn (not_lt.2 hle)) fun _ => ?_)
  refine Store.sp_bind (sp_planLimitsFor ?_)
  refine Store.sp_ite (fun _ => ?_) fun hno => absurd hblank hno
  refine Store.sp_bind (Store.sp_ite (fun hsoft => ?_) fun _ => ?_)
  · rw [hmode] at hsoft
    exact absurd hsoft (by decide)
  · rw [hlimit]
    by_cases hgranted : Bigint (db.granted ck)
    · have hsum : eval (.sumGrants ck) (fun _ => false) db = .ok (reads (db.granted ck)) := by
        have hcheck : checkBigint (db.granted ck) = .ok () := checkBigint_ok.2 hgranted
        simp [eval, hcheck, bind, Except.bind, pure, Except.pure]
      refine Store.sp_bind (Store.sp_query_auto hsum ?_)
      cases ho : eval (.addUsedWithin ck n (db.limit ck) (db.granted ck)) (fun _ => false) db with
      | error e =>
        -- an amount out of range; with room there is none
        refine Store.sp_query_fails ho ?_
        refine iff_of_false (fun hok => by cases hok) fun hroom => ?_
        rw [eval_addUsedWithin_room hroom h hn rfl] at ho
        cases ho
      | ok o =>
        refine Store.sp_query_auto ho ?_
        refine Store.sp_ite (fun happlied => ?_) fun hrefused => ?_
        · obtain ⟨hbig, hle⟩ := room_of_addUsedWithin ho happlied
          exact Store.sp_pure (Store.sp_pure ⟨fun _ => ⟨hgranted, hbig, hle⟩, fun _ => rfl⟩)
        · refine Store.sp_throw ?_
          refine iff_of_false (fun hok => by cases hok) fun hroom => ?_
          rw [eval_addUsedWithin_room hroom h hn rfl] at ho
          cases ho
          exact absurd rfl hrefused
    · have hsum : eval (.sumGrants ck) (fun _ => false) db = .error .numericOutOfRange := by
        simp [eval, checkBigint, if_neg hgranted, bind, Except.bind]
      refine Store.sp_bind (Store.sp_query_fails hsum ?_)
      exact iff_of_false (fun hok => by cases hok) fun hroom => hgranted hroom.granted

end admission

/-! ## Check and Consume -/

/-- The counter is not one whose room is all held by reservations; without a limit,
2^62 and the grants are enough for it. -/
def Db.ChecksOut (db : Db) (ck : CounterKey) : Prop :=
  let limit := (db.planOf ck.workspaceID).limits? ck.counterKey
  let c := db.counter ck
  if limit < 0 then c.used + c.reserved < 2 ^ 62 + db.granted ck ∧ 2 ^ 62 + db.granted ck < 2 ^ 63
  else c.used + c.reserved < limit + db.granted ck ∨ limit + db.granted ck ≤ c.used ∨
    2 ^ 63 ≤ limit + db.granted ck

instance (db : Db) (ck : CounterKey) : Decidable (db.ChecksOut ck) :=
  inferInstanceAs (Decidable (if (db.planOf ck.workspaceID).limits? ck.counterKey < 0 then _ ∧ _
    else _ ∨ _ ∨ _))

theorem Db.limit_eq (db : Db) (ck : CounterKey) : db.limit ck
    = if (db.planOf ck.workspaceID).limits? ck.counterKey < 0 then 2 ^ 62
      else (db.planOf ck.workspaceID).limits? ck.counterKey := rfl

/-- What `Check` returns, column by column. -/
theorem check_ok {db : Db} {ws key : String} {now : Time} {st : Status}
    (h : check db ws key now = .ok st) :
    Bigint (db.granted ⟨ws, period now, key⟩) ∧
      st = { key := key, limit := (db.planOf ws).limits? key,
             used := (db.counter ⟨ws, period now, key⟩).used,
             granted := db.granted ⟨ws, period now, key⟩,
             reserved := (db.counter ⟨ws, period now, key⟩).reserved, period := period now } := by
  simp only [check, usageOf, Except.bind_eq_ok, checkBigint_ok] at h
  obtain ⟨amounts, ⟨_, hbig, hamounts⟩, hst⟩ := h
  cases hamounts
  exact ⟨hbig, (Except.ok.inj hst).symm⟩

/-- In every state that the calls of the service reach, a check of a hard limit
predicts whether one more unit is admitted, run alone at the same time, exactly
where the room of the counter is not all held. -/
theorem exceeded_predicts_iff {db₀ : Db} (h₀ : Inv db₀)
    {past : List (Pool (TxOp Stmt PgErr) (Store.Sys Db Resource Write) Ended)}
    {p : Pool (TxOp Stmt PgErr) (Store.Sys Db Resource Write) Ended}
    (h : QuotaRun openPolicy db₀ past p) {ws key : String} {now : Time} {st : Status}
    (hmode : (p.shared.db.planOf ws).mode = .hard)
    (hlimit : Bigint ((p.shared.db.planOf ws).limits? key))
    (hst : check p.shared.db ws key now = .ok st) :
    (st.exceeded = false ↔ (store.runSolo (consume ws key 1 now).run p.shared.db).1 = .ok ()) ↔
      p.shared.db.ChecksOut ⟨ws, period now, key⟩ := by
  obtain ⟨log, cur, hgood, -⟩ := run_sound openPolicy_lawful h₀ h
  have hinv : Inv p.shared.db := hgood.inv
  obtain ⟨hgranted, rfl⟩ := check_ok hst
  rw [consume_admitted_iff hinv Int.one_pos hmode]
  have hused := hinv.used ⟨ws, period now, key⟩
  have hreserved := hinv.reserved_nonneg ⟨ws, period now, key⟩
  have hgrants := granted_nonneg hinv.grants ⟨ws, period now, key⟩
  have hroom : p.shared.db.HasRoom ⟨ws, period now, key⟩ 1 ↔
      Bigint (p.shared.db.limit ⟨ws, period now, key⟩ + p.shared.db.granted ⟨ws, period now, key⟩) ∧
      (p.shared.db.counter ⟨ws, period now, key⟩).used + 1 +
        (p.shared.db.counter ⟨ws, period now, key⟩).reserved
        ≤ p.shared.db.limit ⟨ws, period now, key⟩ + p.shared.db.granted ⟨ws, period now, key⟩ :=
    ⟨fun hr => ⟨hr.limit, hr.room⟩, fun hr => ⟨hgranted, hr.1, hr.2⟩⟩
  rw [hroom, Db.limit_eq, Db.ChecksOut]
  simp only [Status.exceeded, Bool.and_eq_false_iff, decide_eq_false_iff_not, ge_iff_le, not_le]
  generalize (p.shared.db.planOf ws).limits? key = limit at *
  generalize p.shared.db.counter ⟨ws, period now, key⟩ = c at *
  generalize p.shared.db.granted ⟨ws, period now, key⟩ = granted at *
  unfold Bigint at hgranted hlimit ⊢
  unfold wrap64
  by_cases hneg : limit < 0
  · simp only [if_pos hneg]
    omega
  · simp only [if_neg hneg]
    omega

/-- After a reservation of which 20 seats are still held there is room for one more,
as the check says. -/
theorem exceeded_predicts_iff_reserveAndRelease :
    check (runCalls freshDb reserveAndRelease) "w" "seats" newYear
      = .ok ⟨"seats", 50, 0, 0, 20, "2026-01"⟩ ∧
    (store.runSolo (consume "w" "seats" 1 newYear).run (runCalls freshDb reserveAndRelease)).1 = .ok () := by
  have hplain : plainCalls freshDb reserveAndRelease = true := by decide
  obtain ⟨past, hrun⟩ := quotaRun_calls (fun c _ => openPolicy_admits c) hplain
  have hst : check (runCalls freshDb reserveAndRelease) "w" "seats" newYear
      = .ok ⟨"seats", 50, 0, 0, 20, "2026-01"⟩ := by decide
  refine ⟨hst, ?_⟩
  have hiff := (exceeded_predicts_iff freshDb_inv hrun (by decide) (by decide) hst).2 (by decide)
  exact hiff.1 (by decide)

/-- All the seats are reserved. -/
def reserveAll : List Call := [.reserve "w" "seats" 50 "a" {} ⟨newYear, newYear, "r1"⟩]

/-- While all 50 seats are held the check is not exceeded, and no seat is admitted. -/
theorem exceeded_misses_reserved :
    (∃ past, QuotaRun openPolicy freshDb past (.idle (.quiet (runCalls freshDb reserveAll)))) ∧
    Inv freshDb ∧ ((runCalls freshDb reserveAll).planOf "w").mode = .hard ∧
    check (runCalls freshDb reserveAll) "w" "seats" newYear
      = .ok ⟨"seats", 50, 0, 0, 50, "2026-01"⟩ ∧
    (⟨"seats", 50, 0, 0, 50, "2026-01"⟩ : Status).exceeded = false ∧
    (store.runSolo (consume "w" "seats" 1 newYear).run (runCalls freshDb reserveAll)).1
      = .error (.app (exceeded "seats")) :=
  ⟨quotaRun_calls (fun c _ => openPolicy_admits c) (by decide), freshDb_inv, by decide, by decide,
    by decide, by decide⟩

end Ploykit.Quota

import Ploykit.Quota.Programs

/-!
# The reserved column

For any calls with any arguments, interleaved statement by statement, with
failures, crashes and plan changes in between: `quota_counter.reserved` is the
sum of what the live reservations still hold.
-/

namespace Ploykit.Quota

open Lib

/-- Every call, every plan change. -/
def openPolicy : Policy where
  J := Inv
  planEnv := fun _ _ => True
  settles := fun _ _ _ => True
  commits := fun _ => True

theorem openPolicy_lawful : openPolicy.Lawful where
  inv h := h
  plan_refl _ := trivial
  plan_trans _ _ := trivial
  effect h _ he := h.effect he
  plans h _ := h.plans _

theorem openPolicy_admits (c : Call) : openPolicy.admits c := fun _ _ => trivial

/-- Along every run: the counter's `reserved` is the sum of `amount - released_amount`
over the live reservations of its workspace, period and key; a statement that
clamps is only issued where there is enough to take from; and no reservation
releases more than its amount. -/
theorem reserved_eq_held {db₀ : Db} (h₀ : Inv db₀)
    {past : List (Pool (TxOp Stmt PgErr) (Store.Sys Db Resource Write) Ended)}
    {p : Pool (TxOp Stmt PgErr) (Store.Sys Db Resource Write) Ended}
    (h : QuotaRun openPolicy db₀ past p) :
    (∀ ck : CounterKey, (p.shared.db.counter ck).reserved = p.shared.db.held ck) ∧
    (∀ (i : Nat) (β : Type) (s : Stmt β) (k : Except PgErr β → Script (TxOp Stmt PgErr) Ended),
      p.session i = some (.call (.stmt s) k) →
        NoClamp (store.view (p.shared.tx i) p.shared.db) s) ∧
    (∀ r ∈ p.shared.db.reservations, 0 ≤ r.releasedAmount ∧ r.releasedAmount ≤ r.amount) := by
  obtain ⟨log, cur, hgood, -⟩ := run_sound openPolicy_lawful h₀ h
  have hinv : Inv p.shared.db := hgood.inv
  refine ⟨hinv.balance, fun i β s k hi => ?_, fun r hr => ?_⟩
  · exact hgood.asserts (protocol_lawful openPolicy_lawful) hi
  · exact ⟨(hinv.rows r hr).released_nonneg, (hinv.rows r hr).released_le⟩

/-! ## A run -/

/-- Empty tables; every workspace is on a hard plan of 50. -/
def freshDb : Db where
  plans _ := some ⟨"pro", [("seats", 50)], .hard⟩
  counters _ := none
  reservations := []
  consumeIdems := []
  grants := []

theorem freshDb_inv : Inv freshDb := by
  constructor <;> simp [freshDb, Db.counter, Db.held]

/-- 2026-01-01 -/
def newYear : Time := 1767225600000000

/-- A reservation of 30, of which 10 are released again. -/
def reserveAndRelease : List Call :=
  [.reserve "w" "seats" 30 "a" {} ⟨newYear, newYear, "r1"⟩, .releaseReservation "r1" 10 "b"]

theorem reserved_eq_held_reserveAndRelease :
    ((runCalls freshDb reserveAndRelease).counter ⟨"w", "2026-01", "seats"⟩).reserved = 20 ∧
    ((runCalls freshDb reserveAndRelease).counter ⟨"w", "2026-01", "seats"⟩).reserved
      = (runCalls freshDb reserveAndRelease).held ⟨"w", "2026-01", "seats"⟩ := by
  have hplain : plainCalls freshDb reserveAndRelease = true := by decide
  obtain ⟨past, hrun⟩ := quotaRun_calls (fun c _ => openPolicy_admits c) hplain
  exact ⟨by decide, (reserved_eq_held freshDb_inv hrun).1 _⟩

end Ploykit.Quota

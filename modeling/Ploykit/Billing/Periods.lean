import Ploykit.Billing.Renewals

/-!
# Periods

An expiry is reckoned from the time of the payment, and a day that the later month lacks is counted
on. So a period that begins at the end of a month can end after one that begins later.
-/

namespace Ploykit.Billing

open Lib Script Calendar

/-- The month in which the interval ends has the day on which it begins. -/
def BillingInterval.KeepsDay (interval : BillingInterval) (t : Time) : Prop :=
  match interval with
  | .yearly => Calendar.KeepsDay t 1 0
  | _ => Calendar.KeepsDay t 0 1

instance {interval : BillingInterval} {t : Time} : Decidable (interval.KeepsDay t) := by
  unfold BillingInterval.KeepsDay
  split <;> infer_instance

theorem addInterval_trial {t : Time} {interval : BillingInterval} {trialDays : Int} (h : 0 < trialDays) :
    addInterval t interval trialDays = t + trialDays * microsPerDay := by
  unfold addInterval
  rw [if_pos h, addDate_days]

/-- The months of an interval. -/
theorem addInterval_months (interval : BillingInterval) {trialDays : Int} (h : ¬ 0 < trialDays) :
    ∃ years months, (∀ t, addInterval t interval trialDays = addDate t years months 0) ∧
      ∀ t, interval.KeepsDay t ↔ Calendar.KeepsDay t years months := by
  have hend (t : Time) : addInterval t interval trialDays = if interval = .yearly then addDate t 1 0 0 else addDate t 0 1 0 := by
    unfold addInterval
    rw [if_neg h]
    cases interval <;> rfl
  by_cases hyear : interval = .yearly
  · subst hyear
    exact ⟨1, 0, fun t => (hend t).trans (if_pos rfl), fun t => Iff.rfl⟩
  · refine ⟨0, 1, fun t => (hend t).trans (if_neg hyear), fun t => ?_⟩
    cases interval with
    | yearly => exact absurd rfl hyear
    | monthly | oneTime => exact Iff.rfl

/-- Expiries are overtaken by less than three days, and by none where a trial is counted in days or the day is kept. -/
theorem addInterval_mono {t t' : Time} (h : t ≤ t') (interval : BillingInterval) (trialDays : Int) :
    addInterval t interval trialDays < addInterval t' interval trialDays + 3 * microsPerDay ∧
      (0 < trialDays ∨ interval.KeepsDay t → addInterval t interval trialDays ≤ addInterval t' interval trialDays) := by
  by_cases htrial : 0 < trialDays
  · rw [addInterval_trial htrial, addInterval_trial htrial]
    have hkept : t + trialDays * microsPerDay ≤ t' + trialDays * microsPerDay := Int.add_le_add_right h _
    have hpos : (0 : Int) < 3 * microsPerDay := by decide
    exact ⟨Int.lt_of_le_of_lt hkept (Int.lt_add_of_pos_right _ hpos), fun _ => hkept⟩
  · obtain ⟨years, months, heq, hkeeps⟩ := addInterval_months interval htrial
    obtain ⟨hnear, hkept⟩ := addDate_mono h years months
    rw [heq, heq, hkeeps]
    exact ⟨hnear, fun hor => hkept (hor.resolve_left htrial)⟩

section

variable {db : Db} {e : PaymentEvent} {w : World} {now : Time} {row : Workspace}

/-- A renewal sets the expiry, whatever has been stored. -/
theorem renewal_expiry (hdb : Reachable db) (htype : e.type = .subscriptionRenewed) (haccept : db.Accepts e)
    (hfound : db.findWorkspaceBySubscription e.subscriptionRef = some row) (hamount : ¬ db.RefusesRenewal e) :
    ((delivered w e now db).workspace row.id).map Workspace.planExpiresAt
      = some (some (addInterval now (db.renewalInterval row.id) 0)) := by
  have href : e.subscriptionRef ≠ "" := by
    obtain ⟨-, hsub⟩ := Db.workspace_of_subscription hfound
    obtain ⟨ref, -, href⟩ := Option.map_eq_some_iff.1 hsub
    exact href ▸ ref.2
  rw [workspace_renewal hdb.consistent htype haccept, if_neg hamount, Db.workspace_extendedBy hfound]
  simp [Workspace.setPlan, Workspace.setSubscription, href, Db.renewalExpiry]

end

end Ploykit.Billing

import Mathlib.Tactic.Linarith
import Ploykit.Identity.Service

/-!
# Waiting

A caller with too many failed attempts in the window is told to wait until the earliest of them has left it.
The wait is in whole seconds.
-/

namespace Ploykit.Identity

open Lib Webx

/-! ## The hint -/

/-- `webx.Error` of a rate limit. Without a hint `retryAfter` is zero. -/
structure RateLimited where
  message : String
  retryAfter : Duration := 0
  deriving DecidableEq, Repr

def newRateLimitedRetry (msg : String) (after : Duration) : RateLimited := ⟨msg, if 0 < after then after else 0⟩

/-- The header that `WriteErr` sets. -/
def RateLimited.header (e : RateLimited) : Option Int :=
  if 0 < e.retryAfter then
    let secs := e.retryAfter / second
    some (if secs < 1 then 1 else secs)
  else none

namespace World

variable (w : World)

/-- The failed attempts of the caller since then. -/
def recentAttempts (ipHash identity : String) (since : Time) : List LoginAttempt :=
  w.attempts.filter fun a => a.ipHash = ipHash ∧ a.identity = identity ∧ since ≤ a.createdAt ∧ ¬ a.success

def countRecentAttempts (ipHash identity : String) (since : Time) : Int := (w.recentAttempts ipHash identity since).length

/-- `ORDER BY created_at ASC LIMIT 1` -/
def earliestRecentAttempt (ipHash identity : String) (since : Time) : Option Time :=
  (Table.first (fun a b => a.createdAt < b.createdAt) (w.recentAttempts ipHash identity since)).map LoginAttempt.createdAt

end World

namespace Service

variable (svc : Service)

/-- What `tooManyAttempts` answers. -/
def limited (w : World) (ipHash email : String) : Bool :=
  svc.maxAttemptsPerIP ≤ w.countRecentAttempts ipHash email (w.clock - svc.attemptWindow)

def rateLimitedError (w : World) (ipHash email : String) : RateLimited :=
  let msg := "too many attempts, retry later"
  match w.earliestRecentAttempt ipHash email (w.clock - svc.attemptWindow) with
  | none => ⟨msg, 0⟩
  | some earliest =>
    let wait := earliest + svc.attemptWindow - w.clock
    if wait ≤ 0 then ⟨msg, 0⟩ else newRateLimitedRetry msg wait

/-- The call executed in the world may answer so. -/
def Answers (w : World) (ipHash email : String) (limited : Bool) : Prop :=
  (svc.tooManyAttempts ipHash email).run.Path Step w (.ret (.ok limited)) w

end Service

/-! ## The window -/

section window

variable {svc : Service} {w : World} {ipHash email identity : String} {since since' t : Time}

/-- The attempts that are left after a while are those that are not older. -/
theorem recentAttempts_later (h : since ≤ since') : w.recentAttempts ipHash identity since'
    = (w.recentAttempts ipHash identity since).filter fun a => since' ≤ a.createdAt := by
  simp only [World.recentAttempts, List.filter_filter]
  apply List.filter_congr
  intro a _
  simp only [← Bool.decide_and, decide_eq_decide]
  constructor
  · rintro ⟨hip, hid, hle, hfail⟩
    exact ⟨hle, hip, hid, h.trans hle, hfail⟩
  · rintro ⟨hle, hip, hid, -, hfail⟩
    exact ⟨hip, hid, hle, hfail⟩

theorem countRecentAttempts_le (h : since ≤ since') :
    w.countRecentAttempts ipHash identity since' ≤ w.countRecentAttempts ipHash identity since := by
  simp only [World.countRecentAttempts, recentAttempts_later h]
  exact_mod_cast List.length_filter_le ..

theorem earliest_le {earliest : Time} (h : w.earliestRecentAttempt ipHash identity since = some earliest) :
    ∀ a ∈ w.recentAttempts ipHash identity since, earliest ≤ a.createdAt := by
  simp only [World.earliestRecentAttempt, Option.map_eq_some_iff] at h
  obtain ⟨a₀, hfirst, rfl⟩ := h
  intro a ha
  have hle := Table.first_le (fun a b hab => ?_) (fun a b c hab hbc => ?_) hfirst a ha
  · exact Int.not_lt.1 (by simpa using hle)
  · simp only [decide_eq_true_eq] at hab ⊢
    exact Int.not_lt.2 hab.le
  · simp only [decide_eq_true_eq, not_lt] at hab hbc ⊢
    exact hbc.trans hab

/-- Until the earliest of them leaves the window all of them stay. -/
theorem recentAttempts_until {earliest : Time} (h : w.earliestRecentAttempt ipHash identity since = some earliest)
    (hle : since ≤ since') (hstays : since' ≤ earliest) :
    w.recentAttempts ipHash identity since' = w.recentAttempts ipHash identity since := by
  rw [recentAttempts_later hle, List.filter_eq_self]
  intro a ha
  exact decide_eq_true (hstays.trans (earliest_le h a ha))

end window

/-! ## The answer -/

section seconds

variable {d : Int}

theorem secs_mul_le (h : second ≤ d) : max 1 (d / second) * second ≤ d := by
  have hone : 1 ≤ d / second := Int.le_ediv_of_mul_le (by decide) (by simpa using h)
  rw [max_eq_right hone]
  exact Int.ediv_mul_le d (by decide)

theorem secs_eq_one (h : d < second) : max 1 (d / second) = 1 := by
  have hnone : d / 1000000000 ≤ 1 := by
    simp only [second] at h
    omega
  exact max_eq_left hnone

theorem secs_eq : (if d / second < 1 then 1 else d / second) = max 1 (d / second) := by
  split_ifs <;> omega

theorem one_le_secs : 1 ≤ max 1 (d / second) := le_max_left ..

end seconds

section answer

variable {svc : Service} {w : World} {ipHash email : String} {t : Time}

theorem answers_iff {b : Bool} : svc.Answers w ipHash email b ↔ b = svc.limited w ipHash email := by
  have hcount : ((Query.countRecentAttempts ipHash email (w.clock - svc.attemptWindow)).exec w)
      = (.ok (w.countRecentAttempts ipHash email (w.clock - svc.attemptWindow)), w) := by
    simp only [Query.exec, World.countRecentAttempts, World.recentAttempts, List.countP_eq_length_filter]
  constructor
  · intro h
    obtain ⟨now, w₁, ⟨rfl, rfl⟩, h⟩ := Script.Path.call_ret h
    obtain ⟨n, w₂, hstep, h⟩ := Script.Path.call_ret h
    cases hstep with
    | inl hanswers =>
      cases hanswers.trans hcount
      cases h
      rfl
    | inr hfails =>
      obtain ⟨⟨e, rfl⟩, -⟩ := hfails
      cases h
  · rintro rfl
    exact .step ⟨rfl, rfl⟩ (.step (.inl hcount.symm) (.refl _ _))

theorem limited_iff : svc.limited w ipHash email = true ↔
    svc.maxAttemptsPerIP ≤ w.countRecentAttempts ipHash email (w.clock - svc.attemptWindow) := by
  simp only [Service.limited, decide_eq_true_eq]

/-- Later no more attempts are in the window. -/
theorem admitted_later {t' : Time} (hle : t ≤ t') (h : svc.Answers { w with clock := t } ipHash email false) :
    svc.Answers { w with clock := t' } ipHash email false := by
  have hcount : w.countRecentAttempts ipHash email (t' - svc.attemptWindow)
      ≤ w.countRecentAttempts ipHash email (t - svc.attemptWindow) := countRecentAttempts_le (by linarith)
  simp only [answers_iff, Service.limited, Bool.false_eq, decide_eq_false_iff_not, not_le] at h ⊢
  exact hcount.trans_lt h

/-- A hint is given while the earliest of the attempts is in the window, and is what is left of that in whole seconds. -/
theorem header_eq_some {secs : Int} : (svc.rateLimitedError w ipHash email).header = some secs ↔
    ∃ earliest, w.earliestRecentAttempt ipHash email (w.clock - svc.attemptWindow) = some earliest
      ∧ 0 < earliest + svc.attemptWindow - w.clock
      ∧ secs = max 1 ((earliest + svc.attemptWindow - w.clock) / second) := by
  cases hfound : w.earliestRecentAttempt ipHash email (w.clock - svc.attemptWindow) with
  | none => simp [Service.rateLimitedError, RateLimited.header, hfound]
  | some earliest =>
    simp only [Service.rateLimitedError, hfound, Option.some.injEq, exists_eq_left']
    split_ifs with hpos
    · simp only [RateLimited.header, Int.lt_irrefl, ↓reduceIte, reduceCtorEq, false_iff, not_and]
      exact fun hleft => absurd hpos (not_le.2 hleft)
    · simp only [newRateLimitedRetry, RateLimited.header, not_le.1 hpos, ↓reduceIte, Option.some.injEq, true_and, secs_eq]
      exact eq_comm

/-- The hint that a rejected caller gets is right. -/
def Service.Truthful (svc : Service) (w : World) (ipHash email : String) : Prop :=
  ∃ secs, (svc.rateLimitedError w ipHash email).header = some secs ∧ 0 < secs
    ∧ ∀ t, w.clock + secs * second ≤ t → svc.Answers { w with clock := t } ipHash email false

/-- Only a hint of one second can be right: one that was rounded down ends before the earliest attempt has left the window. -/
theorem retry_after_iff (hlimited : svc.Answers w ipHash email true) : svc.Truthful w ipHash email ↔
    (∃ earliest, w.earliestRecentAttempt ipHash email (w.clock - svc.attemptWindow) = some earliest
      ∧ w.clock < earliest + svc.attemptWindow ∧ earliest + svc.attemptWindow < w.clock + second)
    ∧ w.countRecentAttempts ipHash email (w.clock + second - svc.attemptWindow) < svc.maxAttemptsPerIP := by
  have hlim := limited_iff.1 (answers_iff.1 hlimited).symm
  constructor
  · rintro ⟨secs, hsecs, hpos, hadmits⟩
    obtain ⟨earliest, hearliest, hleft, rfl⟩ := header_eq_some.1 hsecs
    have hadmitted := answers_iff.1 (hadmits _ le_rfl)
    simp only [Service.limited, Bool.false_eq, decide_eq_false_iff_not, not_le] at hadmitted
    have hshort : earliest + svc.attemptWindow < w.clock + second := by
      by_contra hlong
      have hsecs := secs_mul_le (d := earliest + svc.attemptWindow - w.clock) (by linarith)
      have hnow := one_le_secs (d := earliest + svc.attemptWindow - w.clock)
      have hsecond : (0 : Int) < second := by decide
      have hstays : w.recentAttempts ipHash email
          (w.clock + max 1 ((earliest + svc.attemptWindow - w.clock) / second) * second - svc.attemptWindow) =
          w.recentAttempts ipHash email (w.clock - svc.attemptWindow) :=
        recentAttempts_until hearliest (by nlinarith) (by linarith)
      simp only [World.countRecentAttempts] at hadmitted hlim
      exact absurd hlim (not_le.2 (hstays ▸ hadmitted))
    rw [secs_eq_one (by linarith), Int.one_mul] at hadmitted
    exact ⟨⟨earliest, hearliest, by linarith, hshort⟩, hadmitted⟩
  · rintro ⟨⟨earliest, hearliest, hleft, hshort⟩, hfew⟩
    have hone := secs_eq_one (d := earliest + svc.attemptWindow - w.clock) (by linarith)
    refine ⟨1, header_eq_some.2 ⟨earliest, hearliest, by linarith, hone.symm⟩, by decide, fun t ht => ?_⟩
    have hthen : svc.Answers { w with clock := w.clock + second } ipHash email false := by
      simp only [answers_iff, Service.limited, Bool.false_eq, decide_eq_false_iff_not, not_le]
      exact hfew
    exact admitted_later (by linarith) hthen

/-! ### Ten failed attempts -/

/-- Ten attempts at time zero have failed. -/
def tenFailed (now : Time) : World :=
  { emptyWorld with attempts := List.replicate 10 ⟨"ip", "ann@example.com", false, 0⟩, clock := now }

theorem retry_after_last_second :
    plainService.Answers (tenFailed (15 * minute - 500000000)) "ip" "ann@example.com" true
      ∧ plainService.Truthful (tenFailed (15 * minute - 500000000)) "ip" "ann@example.com" := by
  have hlimited : plainService.Answers (tenFailed (15 * minute - 500000000)) "ip" "ann@example.com" true :=
    answers_iff.2 (by decide)
  exact ⟨hlimited, (retry_after_iff hlimited).2 ⟨⟨0, by decide, by decide, by decide⟩, by decide⟩⟩

/-- A caller that is told to wait for half a minute is still rejected after it. -/
theorem retry_after_ignored :
    ¬ ∀ (svc : Service) (w : World) (ipHash email : String) (secs : Int), svc.Answers w ipHash email true →
      (svc.rateLimitedError w ipHash email).header = some secs →
        0 < secs ∧ ∀ t, w.clock + secs * second ≤ t → svc.Answers { w with clock := t } ipHash email false := by
  intro hclaim
  have hlimited : plainService.Answers (tenFailed (15 * minute - 30 * second)) "ip" "ann@example.com" true :=
    answers_iff.2 (by decide)
  have hadmits := (hclaim _ _ _ _ 30 hlimited (by decide)).2 (15 * minute) (by decide)
  have hrejected : plainService.limited (tenFailed (15 * minute)) "ip" "ann@example.com" = true := by decide
  cases (answers_iff.1 hadmits).trans hrejected

end answer

end Ploykit.Identity

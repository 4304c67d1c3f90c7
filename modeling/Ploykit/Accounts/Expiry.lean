import Ploykit.Accounts.Record

/-!
# Sessions that have ended

`VerifySession` rejects what has been revoked or has expired. `RenewSession` moves the expiry by
the time at which its request came, and does not ask whether the session has expired since.
-/

namespace Ploykit.Accounts

open Lib hiding Time
open Webx
open Identity (Time hour)

/-! ## Verification -/

/-- What a session that dies of no renewal becomes. -/
theorem Session.Becomes.dead {s s' : Session} {t : Time} (h : s.Becomes s') (hs : s.dead t)
    (hexpiry : s.revokedAt = none → s.expiresAt ≤ t → s'.expiresAt ≤ t ∨ s.absoluteExpiresAt ≤ t) : s'.dead t := by
  simp only [Session.dead, Bool.or_eq_true, decide_eq_true_eq, h.absoluteExpiresAt] at hs ⊢
  cases hrevoked : s.revokedAt with
  | some at_ =>
    have hkept : s'.revokedAt = s.revokedAt := h.revokedAt (by simp [hrevoked])
    simp [hkept, hrevoked]
  | none =>
    have := hexpiry hrevoked
    simp only [hrevoked, Option.isSome_none, Bool.false_eq_true, false_or] at hs
    rcases hs with hs | hs
    · rcases this hs with h' | h'
      · exact .inl (.inr h')
      · exact .inr h'
    · exact .inr hs

/-! ## What is recorded of it -/

def Event.rejects : Event → Bool
  | .rejected _ _ => true
  | _ => false

namespace Query

variable {cfg : Config} {β : Type} {q : Query β} {w : World} {r : Except Err β}

/-- A session is told that the session is dead, or not. -/
theorem answered_cases (h : q.Told cfg w r) : q.answered w r = [] ∨
    ∃ token now s, w.sessions.get token = some s ∧ (q.exec cfg w).2 = w ∧
      (q.answered w r = [.rejected token now] ∧ s.dead now ∨ q.answered w r = [.accepted token now] ∧ s.dead now = false) := by
  cases q with
  | verifySession token now =>
    rcases h with rfl | ⟨e, rfl⟩
    · simp only [exec]
      cases hverify : w.verify token now with
      | some p =>
        obtain ⟨s, u, hs, -, hlive, -⟩ := World.verify_some hverify
        exact .inr ⟨token, now, s, hs, trivial, .inr ⟨rfl, hlive⟩⟩
      | none =>
        cases hs : w.sessions.get token with
        | none => exact .inl (by simp [answered, hs])
        | some s =>
          cases hdead : s.dead now with
          | false => exact .inl (by simp [answered, hs, hdead])
          | true => exact .inr ⟨token, now, s, hs, trivial, .inl ⟨by simp [answered, hs, hdead], hdead⟩⟩
    · exact .inl rfl
  | _ => exact .inl rfl

end Query

/-! ## Renewal -/

/-- The statement renews a session that has been rejected, and that would have lived if it had come in time. -/
def Query.Overtaken (cfg : Config) (w : World) : {β : Type} → Query β → Prop
  | _, .renewSession token now => ∃ s t, w.sessions.get token = some s ∧ s.due cfg token now ∧
      .rejected token t ∈ w.history ∧ t < now + cfg.sessionTTL ∧ t < s.absoluteExpiresAt
  | _, _ => False

/-- A session that has been rejected stays dead, unless it is renewed after all. -/
theorem Query.stays_dead {cfg : Config} {β : Type} {q : Query β} {w : World} {token : String} {t : Time} {s : Session}
    (h : ¬ q.Overtaken cfg w) (hrejected : .rejected token t ∈ w.history) (hs : w.sessions.get token = some s)
    (hdead : s.dead t) : ∃ s', (q.exec cfg w).2.sessions.get token = some s' ∧ s'.dead t := by
  rcases q.sessions_cases cfg w with heq | ⟨p, f, hbecomes, hexpiry, heq⟩ | ⟨token', now, hrenews, heq⟩ | ⟨s', hfresh, -, -, heq⟩
  · rw [heq]
    exact ⟨s, hs, hdead⟩
  · rw [heq, Keyed.get_change, hs]
    refine ⟨if p s then f s else s, rfl, ?_⟩
    split
    · exact (hbecomes s).dead hdead fun _ hle => .inl (hexpiry s ▸ hle)
    · exact hdead
  · rw [heq, Keyed.get_change, hs]
    refine ⟨if s.due cfg token' now then s.renewed cfg now else s, rfl, ?_⟩
    split
    · rename_i hdue
      -- otherwise the renewal has been overtaken
      have hlate : now + cfg.sessionTTL ≤ t ∨ s.absoluteExpiresAt ≤ t := by
        by_contra hnot
        rw [not_or, not_le, not_le] at hnot
        cases q with
        | renewSession token₁ now₁ =>
          obtain ⟨rfl, rfl⟩ := hrenews
          have htoken : s.token = token₁ := by
            simp only [Session.due, decide_eq_true_eq] at hdue
            exact hdue.1
          have hkey : s.token = token := Keyed.key_of_get hs
          obtain rfl : token₁ = token := htoken.symm.trans hkey
          exact h ⟨s, t, hs, hdue, hrejected, hnot.1, hnot.2⟩
        | _ => exact hrenews
      refine Session.Becomes.renewed.dead hdead fun _ _ => ?_
      rcases hlate with hlate | hlate
      · exact .inl ((min_le_left _ _).trans hlate)
      · exact .inr hlate
    · exact hdead
  · have hother : s'.token ≠ token := by
      rintro rfl
      rw [hfresh] at hs
      cases hs
    rw [heq, Keyed.get_insert, if_neg hother]
    exact ⟨s, hs, hdead⟩

/-! ## The record of a run -/

/-- An acceptance that comes after a rejection is of an earlier time. -/
def Event.InTime (later earlier : Event) : Prop :=
  ∀ token t t', later = .accepted token t' → earlier = .rejected token t → t' < t

/-- What is recorded of verifications agrees with the sessions. -/
structure World.Verified (cfg : Config) (w : World) : Prop where
  absolute : ∀ token s, w.sessions.get token = some s → s.absoluteExpiresAt = s.createdAt + cfg.absoluteTTL
  rejected : ∀ token t, .rejected token t ∈ w.history → ∃ s, w.sessions.get token = some s ∧ s.dead t
  accepted : ∀ token t, .accepted token t ∈ w.history → ∃ s, w.sessions.get token = some s ∧ t < s.absoluteExpiresAt
  inTime : w.history.Pairwise Event.InTime

theorem Session.lt_absolute {s : Session} {t : Time} (h : s.dead t = false) : t < s.absoluteExpiresAt := by
  simp only [Session.dead, Bool.or_eq_false_iff, decide_eq_false_iff_not] at h
  exact not_le.1 h.2

namespace World.Verified

variable {cfg : Config} {w : World} {β : Type} {q : Query β} {r : Except Err β} {token : String} {now : Time} {s : Session}

theorem absolute_exec (h : w.Verified cfg) (hs : (q.exec cfg w).2.sessions.get token = some s) :
    s.absoluteExpiresAt = s.createdAt + cfg.absoluteTTL := by
  rcases q.sessions_cases cfg w with heq | ⟨p, f, hbecomes, -, heq⟩ | ⟨token', now, -, heq⟩ | ⟨s', hfresh, hopens, -, heq⟩
  · rw [heq] at hs
    exact h.absolute token s hs
  · rw [heq, Keyed.get_change] at hs
    obtain ⟨s₀, hs₀, rfl⟩ := Option.map_eq_some_iff.1 hs
    split
    · rw [(hbecomes s₀).absoluteExpiresAt, (hbecomes s₀).createdAt]
      exact h.absolute token s₀ hs₀
    · exact h.absolute token s₀ hs₀
  · rw [heq, Keyed.get_change] at hs
    obtain ⟨s₀, hs₀, rfl⟩ := Option.map_eq_some_iff.1 hs
    split <;> exact h.absolute token s₀ hs₀
  · rw [heq, Keyed.get_insert] at hs
    split at hs
    · cases hs
      cases q with
      | createSession =>
        obtain ⟨u, -, rfl⟩ := hopens
        rfl
      | _ => exact hopens.elim
    · exact h.absolute token s hs

/-- What is executed agrees with the verdicts that there are. -/
theorem records (h : w.Verified cfg) (hq : ¬ q.Overtaken cfg w) :
    ((q.exec cfg w).2.record (q.records cfg w)).Verified cfg := by
  have hgrows : w.Grows ((q.exec cfg w).2.record (q.records cfg w)) := .of_records q w
  have hquiet : ∀ e ∈ q.records cfg w, e.verdict = false :=
    fun e he => Query.events_verdict e (Query.mem_records he).2
  have hold : ∀ e, e.verdict → e ∈ ((q.exec cfg w).2.record (q.records cfg w)).history → e ∈ w.history := by
    intro e hverdict he
    rcases List.mem_append.1 he with he | he
    · rw [hquiet e he] at hverdict
      cases hverdict
    · rwa [Query.exec_history] at he
  have hinTime : ∀ e ∈ q.records cfg w, ∀ e', e.InTime e' := by
    intro e he e' token t t' hlater _
    have hverdict := hquiet e he
    rw [hlater] at hverdict
    cases hverdict
  refine ⟨fun token s hs => h.absolute_exec hs, fun token t hmem => ?_, fun token t hmem => ?_, ?_⟩
  · have hrejected := hold _ rfl hmem
    obtain ⟨s, hs, hdead⟩ := h.rejected token t hrejected
    exact Query.stays_dead hq hrejected hs hdead
  · obtain ⟨s, hs, hlt⟩ := h.accepted token t (hold _ rfl hmem)
    obtain ⟨s', hs', hbecomes⟩ := hgrows.sessions hs
    exact ⟨s', hs', hbecomes.absoluteExpiresAt.symm ▸ hlt⟩
  · refine List.pairwise_append.2 ⟨?_, ?_, fun e he e' _ => hinTime e he e'⟩
    · exact List.pairwise_of_forall_mem_list fun e he e' _ => hinTime e he e'
    · rw [Query.exec_history]
      exact h.inTime

/-- A dead session is rejected. -/
theorem reject (h : w.Verified cfg) (hs : w.sessions.get token = some s) (hdead : s.dead now) :
    (w.record [.rejected token now]).Verified cfg where
  absolute := h.absolute
  rejected token' t hmem := by
    rcases List.mem_cons.1 hmem with heq | hmem
    · cases heq
      exact ⟨s, hs, hdead⟩
    · exact h.rejected token' t hmem
  accepted token' t hmem := by
    rcases List.mem_cons.1 hmem with heq | hmem
    · cases heq
    · exact h.accepted token' t hmem
  inTime := by
    refine List.pairwise_cons.2 ⟨fun e _ token' t t' hlater _ => ?_, h.inTime⟩
    cases hlater

/-- A session that is accepted has not been rejected at that time or before. -/
theorem accept (h : w.Verified cfg) (hs : w.sessions.get token = some s) (hlive : s.dead now = false) :
    (w.record [.accepted token now]).Verified cfg where
  absolute := h.absolute
  rejected token' t hmem := by
    rcases List.mem_cons.1 hmem with heq | hmem
    · cases heq
    · exact h.rejected token' t hmem
  accepted token' t hmem := by
    rcases List.mem_cons.1 hmem with heq | hmem
    · cases heq
      exact ⟨s, hs, s.lt_absolute hlive⟩
    · exact h.accepted token' t hmem
  inTime := by
    refine List.pairwise_cons.2 ⟨fun e he token' t t' hlater hearlier => ?_, h.inTime⟩
    cases hlater
    rw [hearlier] at he
    obtain ⟨s', hs', hdead⟩ := h.rejected _ t he
    obtain rfl : s = s' := Option.some.inj (hs.symm.trans hs')
    by_contra hlate
    have hdead' : s.dead now := s.dead_mono hdead (not_lt.1 hlate)
    rw [hlive] at hdead'
    cases hdead'

theorem effect (h : w.Verified cfg) (htold : q.Told cfg w r) (hq : ¬ q.Overtaken cfg w) : (q.effect cfg w r).Verified cfg := by
  have hdone : ((q.exec cfg w).2.record (q.records cfg w)).Verified cfg := h.records hq
  rw [Query.effect, World.record_append]
  rcases Query.answered_cases htold with hanswer | ⟨token, now, s, hs, hworld, hanswer⟩
  · rw [hanswer]
    exact hdone
  · have hs' : ((q.exec cfg w).2.record (q.records cfg w)).sessions.get token = some s := by
      rw [hworld]
      exact hs
    rcases hanswer with ⟨hanswer, hdead⟩ | ⟨hanswer, hlive⟩
    · rw [hanswer]
      exact hdone.reject hs' hdead
    · rw [hanswer]
      exact hdone.accept hs' hlive

end World.Verified

/-! ## Runs -/

/-- Everything runs, and no renewal is overtaken. -/
abbrev timely (svc : Service) : Machine Op World := machineGiven svc fun q w => ¬ q.Overtaken svc.cfg w

/-- A session that has been rejected is not accepted at that time or later, and none is accepted
when the absolute time to live is over. -/
theorem rejected_for_good (svc : Service) {w : World} (hhistory : w.history = [])
    (habsolute : ∀ token s, w.sessions.get token = some s → s.absoluteExpiresAt = s.createdAt + svc.cfg.absoluteTTL)
    {past : List (Pool Op World (Except Err Reply))} {p : Pool Op World (Except Err Reply)}
    (h : Run (Pool.Next (timely svc) (Program svc fun _ => True)) (.idle w) past p) :
    p.shared.history.Pairwise Event.InTime ∧ ∀ token t, .accepted token t ∈ p.shared.history →
      ∃ s, p.shared.sessions.get token = some s ∧ t < s.createdAt + svc.cfg.absoluteTTL := by
  have hinit : w.Verified svc.cfg := by
    refine ⟨habsolute, fun token t hmem => ?_, fun token t hmem => ?_, ?_⟩
    · rw [hhistory] at hmem
      cases hmem
    · rw [hhistory] at hmem
      cases hmem
    · rw [hhistory]
      exact .nil
  have hverified : p.shared.Verified svc.cfg :=
    run_invariant h hinit (fun q w r htold hq hw => hw.effect htold hq) fun w t _ hw => ⟨hw.1, hw.2, hw.3, hw.4⟩
  refine ⟨hverified.inTime, fun token t hmem => ?_⟩
  obtain ⟨s, hs, hlt⟩ := hverified.accepted token t hmem
  exact ⟨s, hs, hverified.absolute token s hs ▸ hlt⟩

/-- A request with the session of `annWorld`. -/
def visits (i n : Nat) : Turns := serves i (.request (.session "s") .meOptional) n

/-- Whoever renews finds no session rejected yet. -/
def renewsFirst {β : Type} (q : Query β) (w : World) : Bool :=
  match q with
  | .renewSession _ _ => w.history.all fun e => ¬ e.rejects
  | _ => true

theorem renewsFirst_timely {cfg : Config} {β : Type} (q : Query β) (w : World) (h : renewsFirst q w) : ¬ q.Overtaken cfg w := by
  intro hovertaken
  cases q with
  | renewSession token now =>
    obtain ⟨s, t, -, -, hrejected, -, -⟩ := hovertaken
    have hnone := List.all_eq_true.1 h _ hrejected
    simp [Event.rejects] at hnone
  | _ => exact hovertaken

theorem annWorld_absolute (token : String) (s : Session) (h : annWorld.sessions.get token = some s) :
    s.absoluteExpiresAt = s.createdAt + plainService.cfg.absoluteTTL := by
  obtain rfl : s = annSession := List.mem_singleton.1 (Keyed.mem_of_get h)
  rfl

/-- The session is renewed in time, expires all the same, and is rejected. -/
def expiresInTheEnd : Turns := later (hour.toNat - 1) ++ visits 0 3 ++ later hour.toNat ++ visits 1 2

theorem expiresInTheEnd_legal : expiresInTheEnd.Forall (Turn.Legal (timely plainService) (Program plainService fun _ => True)) := by
  refine List.forall_append.2 ⟨List.forall_append.2 ⟨List.forall_append.2 ⟨?_, ?_⟩, ?_⟩, ?_⟩
  · exact later_legal rfl
  · exact serves_legal trivial
  · exact later_legal rfl
  · exact serves_legal trivial

theorem rejected_for_good_ann : ∃ past p,
    Run (Pool.Next (timely plainService) (Program plainService fun _ => True)) (.idle annWorld) past p ∧
    .rejected "s" (2 * hour - 1) ∈ p.shared.history ∧ p.shared.history.Pairwise Event.InTime := by
  have hplay : (Pool.play (guarded (fun _ _ o w => o.passes renewsFirst w) (execs noIdP))
      expiresInTheEnd (.idle annWorld)).any fun p => .rejected "s" (2 * hour - 1) ∈ p.shared.history := by decide
  obtain ⟨past, p, hrun, hcheck⟩ :=
    Pool.play_any (guarded_execs renewsFirst_timely) expiresInTheEnd_legal hplay
  exact ⟨past, p, hrun, of_decide_eq_true hcheck, (rejected_for_good plainService rfl annWorld_absolute hrun).1⟩

/-- The first request is delayed before it renews. The second finds the session expired, the third alive. -/
def renewedAfterDeath : Turns :=
  later (hour.toNat - 1) ++ visits 0 2 ++ later 10 ++ visits 1 2 ++ [.calls 0 1] ++ visits 2 2

theorem renewedAfterDeath_legal :
    renewedAfterDeath.Forall (Turn.Legal (machine plainService) (Program plainService fun _ => True)) := by
  refine List.forall_append.2 ⟨List.forall_append.2 ⟨List.forall_append.2 ⟨List.forall_append.2 ⟨List.forall_append.2
    ⟨?_, ?_⟩, ?_⟩, ?_⟩, ?_⟩, ?_⟩
  · exact later_legal rfl
  · exact serves_legal trivial
  · exact later_legal rfl
  · exact serves_legal trivial
  · trivial
  · exact serves_legal trivial

theorem accepted_after_death : ¬ ∀ (svc : Service) (w : World), w.history = [] →
    (∀ token s, w.sessions.get token = some s → s.absoluteExpiresAt = s.createdAt + svc.cfg.absoluteTTL) →
    ∀ past (p : Pool Op World (Except Err Reply)),
      Run (Pool.Next (machine svc) (Program svc fun _ => True)) (.idle w) past p → p.shared.history.Pairwise Event.InTime := by
  intro h
  have hplay : (Pool.play (execs noIdP) renewedAfterDeath (.idle annWorld)).any fun p =>
      p.shared.history.take 2 = [.accepted "s" (hour + 9), .rejected "s" (hour + 9)] := by decide
  obtain ⟨past, p, hrun, hcheck⟩ := Pool.play_any execs_step renewedAfterDeath_legal hplay
  have hordered : (p.shared.history.take 2).Pairwise Event.InTime :=
    (h plainService annWorld rfl annWorld_absolute past p hrun).sublist (List.take_sublist ..)
  rw [of_decide_eq_true hcheck] at hordered
  have hlate : hour + 9 < hour + 9 := (List.pairwise_cons.1 hordered).1 _ List.mem_cons_self "s" _ _ rfl rfl
  exact lt_irrefl _ hlate

end Ploykit.Accounts

import Ploykit.Accounts.Growth

/-!
# The record

What sessions are told of their verification is recorded whatever comes of it, and everything else
where a statement is executed.
-/

namespace Ploykit.Accounts

open Lib hiding Time
open Webx
open Identity (Time)

/-- What a verification was told. -/
def Event.verdict : Event → Bool
  | .rejected _ _ => true
  | .accepted _ _ => true
  | _ => false

namespace Query

variable {cfg : Config} {β : Type} {q : Query β} {w : World} {r : Except Err β} {e : Event}

/-! ## Verdicts -/

theorem events_verdict : ∀ e ∈ q.events cfg w, e.verdict = false := by
  intro e he
  cases q with
  | createSession | softDeleteUserTx =>
    simp only [events, List.mem_append, List.mem_map] at he
    rcases he with ⟨_, -, rfl⟩ | he
    · rfl
    · first
      | obtain ⟨_, -, rfl⟩ := he
        rfl
      | split at he
        · cases he
        · cases List.mem_singleton.1 he
          rfl
  | confirmSessionPassword | revokeAllUserSessions =>
    obtain ⟨_, -, rfl⟩ := List.mem_map.1 he
    rfl
  | linkOAuthAccount | setUserStatus | setPlatformAdmin =>
    cases List.mem_singleton.1 he
    rfl
  | _ => cases he

theorem answered_verdict : ∀ e ∈ q.answered w r, e.verdict := by
  intro e he
  cases q with
  | verifySession token now =>
    rcases r with err | p
    · cases he
    · cases p with
      | none =>
        simp only [answered] at he
        split at he
        · cases List.mem_singleton.1 he
          rfl
        · cases he
      | some p =>
        cases List.mem_singleton.1 he
        rfl
  | _ => cases he

theorem mem_effect_of_ok (hok : (q.exec cfg w).1.toBool) (he : e ∈ q.events cfg w) : e ∈ (q.effect cfg w r).history := by
  rw [effect_history, records, if_pos hok]
  exact List.mem_append_left _ (List.mem_append_right _ he)

/-- What is recorded but verdicts was there, or comes from a statement that was executed. -/
theorem mem_history (h : e ∈ (q.effect cfg w r).history) (hverdict : e.verdict = false) :
    (q.exec cfg w).1.toBool ∧ e ∈ q.events cfg w ∨ e ∈ w.history := by
  rw [effect_history, List.append_assoc] at h
  rcases List.mem_append.1 h with h | h
  · rw [answered_verdict e h] at hverdict
    cases hverdict
  · exact (List.mem_append.1 h).imp_left mem_records

/-! ## Statements -/

theorem opens_of_mem {s : Session} (h : .opened s ∈ q.events cfg w) : q.Opens cfg w s := by
  cases q with
  | createSession party proof newToken userID passwordConfirmed impersonatedBy now =>
    simp only [events, List.mem_append, List.mem_map, Option.mem_toList] at h
    rcases h with ⟨u, hu, heq⟩ | ⟨actor, -, heq⟩
    · cases heq
      exact ⟨u, hu, rfl⟩
    · cases heq
  | softDeleteUserTx actor userID now =>
    simp only [events, List.mem_append, List.mem_map] at h
    rcases h with ⟨u, -, heq⟩ | h
    · cases heq
    · split at h
      · cases h
      · cases List.mem_singleton.1 h
  | _ => simp [events] at h

theorem marks_of_mem {id email : String} (h : .deleted id email ∈ q.events cfg w) : q.Marks id .deleted := by
  cases q with
  | softDeleteUserTx actor userID now =>
    simp only [events, List.mem_append, List.mem_map] at h
    rcases h with ⟨u, hu, heq⟩ | h
    · have huser : u.id = userID := Keyed.key_of_get (Option.mem_toList.1 hu)
      cases heq
      exact ⟨rfl, rfl⟩
    · split at h
      · cases h
      · cases List.mem_singleton.1 h
  | _ => simp [events] at h

/-- The statement links the identity to the user. -/
def Links (l : OAuthAccount) : {β : Type} → Query β → Prop
  | _, .linkOAuthAccount provider subject userID => l = ⟨provider, subject, userID⟩
  | _, _ => False

theorem links_of_mem {l : OAuthAccount} (h : .linked l ∈ q.events cfg w) : q.Links l := by
  cases q with
  | linkOAuthAccount provider subject userID =>
    cases List.mem_singleton.1 h
    rfl
  | softDeleteUserTx actor userID now =>
    simp only [events, List.mem_append, List.mem_map] at h
    rcases h with ⟨u, -, heq⟩ | h
    · cases heq
    · split at h
      · cases h
      · cases List.mem_singleton.1 h
  | _ => simp [events] at h

/-- Of a session that is opened for a user. -/
theorem opened_get {s : Session} (hok : (q.exec cfg w).1.toBool) (h : .opened s ∈ q.events cfg w) :
    (q.exec cfg w).2.sessions.get s.token = some s := by
  have hopens := opens_of_mem h
  cases q with
  | createSession party proof newToken userID passwordConfirmed impersonatedBy now =>
    obtain ⟨u, hu, rfl⟩ := hopens
    rcases createSession_cases cfg w party proof newToken userID passwordConfirmed impersonatedBy now with
      ⟨err, hexec⟩ | ⟨u', exp, hu', hfresh, hexec⟩
    · rw [hexec] at hok
      cases hok
    · obtain rfl : u = u' := Option.some.inj (hu.symm.trans hu')
      rw [hexec, Keyed.get_insert]
      exact if_pos rfl
  | _ => exact hopens.elim

end Query

end Ploykit.Accounts

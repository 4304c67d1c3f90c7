import Ploykit.Accounts.Administrators

/-!
# Impersonation

An administrator opens a session of another user. It is a session like the user's others but for
its mark, which the guard of the admin API refuses whatever the user has become. Nothing asks what has become of
the administrator, or which session a token of the API was made with.
-/

namespace Ploykit.Accounts

open Lib hiding Time
open Webx
open Identity (Time)

/-! ## The guard -/

/-- Requests of the admin API. -/
def Action.Administers : Action → Prop
  | .setUserStatus .. => True
  | .setAdmin .. => True
  | .impersonate .. => True
  | .adminDeleteUser .. => True
  | .kickUser .. => True
  | .revokeUserSession .. => True
  | .revokeUserPAT .. => True
  | _ => False

theorem refuse_bind {α β : Type} {e : Webx.Error} {f : α → Proc β} : (refuse e >>= f) = refuse e := rfl

theorem platformAdminGuard_impersonated {p : Principal} (h : p.impersonatedBy ≠ none) :
    ∃ e, platformAdminGuard (some p) = refuse e := by
  by_cases hrole : p.isPlatformAdmin
  · exact ⟨_, by rw [platformAdminGuard, if_neg (not_not.2 hrole), if_pos h]⟩
  · exact ⟨_, if_pos hrole⟩

/-- Nothing is asked of the database. -/
theorem admin_api_refused {svc : Service} {p : Principal} (h : p.impersonatedBy ≠ none) {a : Action} (ha : a.Administers) :
    ∃ e, a.exec svc (some p) = refuse e := by
  obtain ⟨e, hguard⟩ := platformAdminGuard_impersonated h
  refine ⟨e, ?_⟩
  cases a with
  | setUserStatus | setAdmin | impersonate | adminDeleteUser | kickUser | revokeUserSession | revokeUserPAT =>
    rw [Action.exec, hguard, refuse_bind]
  | _ => exact ha.elim

/-! ## What is recorded -/

/-- The session was opened for an impersonation by an administrator that is on record. -/
def Event.Marked (history : List Event) (s : Session) : Prop :=
  ∃ actor : Actor, s.impersonatedBy = some actor.userID ∧ actor.userID ≠ s.userID ∧ .administered actor ∈ history

/-- Sessions stay what they were opened as, those for impersonations are marked, and whoever has administered did so with a
session that is not. -/
structure World.Contained (w : World) : Prop where
  opened : ∀ s, .opened s ∈ w.history → ∃ s', w.sessions.get s.token = some s' ∧ s.Becomes s'
  marked : ∀ s, .opened s ∈ w.history → s.proof = .impersonation → Event.Marked w.history s
  administered : ∀ actor, .administered actor ∈ w.history →
    ∃ s, w.sessions.get actor.session = some s ∧ s.userID = actor.userID ∧ s.impersonatedBy = none

section step

variable {cfg : Config} {w : World} {β : Type} {q : Query β} {r : Except Err β} {γ : Progress} {old : List OAuthAccount}

/-- What is recorded as administration has passed the guard. -/
theorem Query.admin_of_mem {actor : Actor} (h : .administered actor ∈ q.events cfg w) (hasks : γ.Asks q) : γ.Admin actor := by
  cases q with
  | createSession party proof newToken userID passwordConfirmed impersonatedBy now =>
    simp only [events, List.mem_append, List.mem_map] at h
    rcases h with ⟨u, -, heq⟩ | ⟨actor', hmem, heq⟩
    · cases heq
    · cases heq
      obtain rfl : impersonatedBy = some actor := Option.mem_toList.1 hmem
      cases proof with
      | impersonation => exact hasks.1
      | _ => exact hasks.elim
  | setUserStatus | setPlatformAdmin =>
    cases List.mem_singleton.1 h
    exact hasks.1
  | softDeleteUserTx actor' userID now =>
    simp only [events, List.mem_append, List.mem_map] at h
    rcases h with ⟨u, -, heq⟩ | h
    · cases heq
    · split at h
      · cases h
      · rename_i hother
        cases List.mem_singleton.1 h
        exact hasks.resolve_left hother
  | _ => simp [events] at h

/-- A session that is opened for an impersonation is marked. -/
theorem Query.marked_of_mem {s : Session} (hok : (q.exec cfg w).1.toBool) (h : .opened s ∈ q.events cfg w)
    (hasks : γ.Asks q) (hγ : γ.Holds old w) (hproof : s.proof = .impersonation) : Event.Marked (q.effect cfg w r).history s := by
  have hopens := opens_of_mem h
  cases q with
  | createSession party proof newToken userID passwordConfirmed impersonatedBy now =>
    obtain ⟨u, hu, rfl⟩ := hopens
    obtain rfl : proof = .impersonation := hproof
    cases impersonatedBy with
    | none => exact hasks.elim
    | some actor =>
      obtain ⟨-, id, target, hrow, htarget, -, -, hother⟩ := hasks
      have hid : target.id = id := (hγ.row _ target hrow).1
      have huser : u.id = userID := Keyed.key_of_get hu
      refine ⟨actor, rfl, fun heq => hother (heq.trans (huser.trans (htarget.symm.trans hid))), mem_effect_of_ok hok ?_⟩
      exact List.mem_append_right _ List.mem_cons_self
  | _ => exact hopens.elim

theorem World.Contained.effect (h : w.Contained) (hasks : γ.Asks q) (hγ : γ.Holds old w) : (q.effect cfg w r).Contained := by
  have hgrows : w.Grows (q.effect cfg w r) := .of_effect q w r
  refine ⟨fun s hs => ?_, fun s hs hproof => ?_, fun actor hactor => ?_⟩
  · rcases Query.mem_history hs rfl with ⟨hok, hs⟩ | hs
    · exact ⟨s, Query.opened_get hok hs, .rfl⟩
    · obtain ⟨s', hs', hbecomes⟩ := h.opened s hs
      obtain ⟨s'', hs'', hbecomes'⟩ := hgrows.sessions hs'
      exact ⟨s'', hs'', hbecomes.trans hbecomes'⟩
  · rcases Query.mem_history hs rfl with ⟨hok, hs⟩ | hs
    · exact Query.marked_of_mem hok hs hasks hγ hproof
    · obtain ⟨actor, hmark, hother, hactor⟩ := h.marked s hs hproof
      exact ⟨actor, hmark, hother, hgrows.mem hactor⟩
  · rcases Query.mem_history hactor rfl with ⟨-, hactor⟩ | hactor
    · obtain ⟨p, hcaller, -, hmark, hsource, rfl⟩ := Query.admin_of_mem hactor hasks
      obtain ⟨s, hs, huser, hsame⟩ := hγ.caller p hcaller hsource
      obtain ⟨s', hs', hbecomes⟩ := hgrows.sessions hs
      exact ⟨s', hs', hbecomes.userID.trans huser, hbecomes.impersonatedBy.trans (hsame.trans hmark)⟩
    · obtain ⟨s, hs, huser, hmark⟩ := h.administered actor hactor
      obtain ⟨s', hs', hbecomes⟩ := hgrows.sessions hs
      exact ⟨s', hs', hbecomes.userID.trans huser, hbecomes.impersonatedBy.trans hmark⟩

end step

/-! ## Runs -/

/-- All requests, whatever they ask for. -/
abbrev allRuns (svc : Service) : Pool Op World (Except Err Reply) → Pool Op World (Except Err Reply) → Prop :=
  Pool.Next (machineGiven svc fun _ _ => True) (Program svc fun _ => True)

section runs

variable {svc : Service} {w : World} {past past' : List (Pool Op World (Except Err Reply))}
  {p q : Pool Op World (Except Err Reply)}

theorem run_contained (hhistory : w.history = []) (h : Run (allRuns svc) (.idle w) past p) : p.shared.Contained := by
  have hnone : ∀ e, e ∉ w.history := by
    rw [hhistory]
    exact fun _ => List.not_mem_nil
  have hinit : w.Contained :=
    ⟨fun s hs => absurd hs (hnone _), fun s hs => absurd hs (hnone _), fun actor hactor => absurd hactor (hnone _)⟩
  exact known_invariant h hinit (fun q w' r γ _ _ hasks hγ hw' => hw'.effect hasks hγ) fun w' t _ hw' => ⟨hw'.1, hw'.2, hw'.3⟩

end runs

/-! ### An impersonation -/

def impersonatedWorld : World :=
  { adminWorld with users := ⟨[admin "ann", admin "bea", { id := "cat", email := "cat@example.com" }], by decide⟩ }

def annImpersonates : Turns := asks 0 "s" (.impersonate "i" "cat") 6

theorem annImpersonates_legal {M : Machine Op World} : annImpersonates.Forall (Turn.Legal M (Program plainService fun _ => True)) :=
  serves_legal trivial

def catSession : Session :=
  plainService.cfg.session 0 .impersonation "i" false (some ⟨"ann", "s"⟩) 0 { id := "cat", email := "cat@example.com" }

/-- Sessions of impersonations end with the administrator. -/
def EndsWithAdministrator : Prop := ∀ (svc : Service) (w : World), w.history = [] →
  ∀ past (p : Pool Op World (Except Err Reply)),
    Run (Pool.Next (machine svc) (Program svc fun _ => True)) (.idle w) past p →
    ∀ s a, .opened s ∈ p.shared.history → s.proof = .impersonation → s.impersonatedBy = some a →
      ∀ now principal, p.shared.verify s.token now = some principal → p.shared.Administered a

/-- Tokens of the API end with the session of the impersonation that has made them. -/
def LeavesNoToken : Prop := ∀ (svc : Service) (w : World), w.history = [] →
  ∀ past past' (q p : Pool Op World (Except Err Reply)),
    Run (Pool.Next (machine svc) (Program svc fun _ => True)) (.idle w) past q →
    ∀ s i newToken name ttl scope, .opened s ∈ q.shared.history → s.proof = .impersonation →
      q.session i = some (((Call.request (.session s.token) (.createPAT newToken name ttl scope)).exec svc).run) →
      Run (Pool.Next (machine svc) (Program svc fun _ => True)) q past' p →
      (p.shared.sessions.get s.token).any (·.revokedAt ≠ none) → ∀ now, p.shared.resolve newToken now = none

/-- The administrator is disabled, and the session goes on. -/
theorem not_endsWithAdministrator : ¬ EndsWithAdministrator := by
  intro h
  have hlegal : (annImpersonates ++ asks 1 "t" (.setUserStatus "ann" "disabled") 5).Forall
      (Turn.Legal (machine plainService) (Program plainService fun _ => True)) :=
    List.forall_append.2 ⟨annImpersonates_legal, serves_legal trivial⟩
  have hplay : (Pool.play (execs noIdP) (annImpersonates ++ asks 1 "t" (.setUserStatus "ann" "disabled") 5)
      (.idle impersonatedWorld)).any fun p =>
        .opened catSession ∈ p.shared.history ∧ (p.shared.verify "i" 0).isSome ∧
          (p.shared.users.get "ann").all fun u => u.status ≠ .active := by decide
  obtain ⟨past, p, hrun, hcheck⟩ := Pool.play_any execs_step hlegal hplay
  obtain ⟨hopened, haccepted, hann⟩ := of_decide_eq_true hcheck
  obtain ⟨principal, hverify⟩ := Option.isSome_iff_exists.1 haccepted
  obtain ⟨u, hu, hactive, -⟩ := h plainService impersonatedWorld rfl past p hrun catSession "ann" hopened rfl rfl 0 principal hverify
  rw [hu, Option.all_some] at hann
  exact of_decide_eq_true hann hactive

/-- A request for a token with the session of the impersonation. -/
def catToken : Call := .request (.session "i") (.createPAT "k" "key" 0 none)

/-- The token is made, and the session logs out. -/
def catLeaves : Turns := .calls 2 4 :: asks 3 "i" .logout 4

theorem not_leavesNoToken : ¬ LeavesNoToken := by
  intro h
  have hfirst : (Pool.play (execs noIdP) annImpersonates (.idle impersonatedWorld)).any fun q =>
      .opened catSession ∈ q.shared.history ∧ (q.session 2).isNone ∧
        (Pool.play (execs noIdP) catLeaves (q.move 2 (some (catToken.exec plainService).run) q.shared)).any fun p =>
          ((p.shared.sessions.get "i").any (·.revokedAt ≠ none)) ∧ (p.shared.resolve "k" 0).isSome := by decide
  obtain ⟨past, q, hrun, hcheck⟩ := Pool.play_any execs_step annImpersonates_legal hfirst
  obtain ⟨hopened, hidle, hsecond⟩ := of_decide_eq_true hcheck
  have hlegal : catLeaves.Forall (Turn.Legal (machine plainService) (Program plainService fun _ => True)) :=
    ⟨trivial, serves_legal trivial⟩
  obtain ⟨past', p, hrun', hcheck'⟩ := Pool.play_any execs_step hlegal hsecond
  obtain ⟨hended, haccepted⟩ := of_decide_eq_true hcheck'
  have hstart := hrun.next (.start (Option.isNone_iff_eq_none.1 hidle) ⟨catToken, trivial, rfl⟩)
  have hrejected := h plainService impersonatedWorld rfl _ past' _ p hstart catSession 2 "k" "key" 0 none hopened rfl
    (by simp [Pool.move, catToken, catSession]; rfl) hrun' hended 0
  rw [hrejected] at haccepted
  cases haccepted

end Ploykit.Accounts

import Ploykit.Accounts.Knowledge

/-!
# Changes of password

A change replaces the hash and stamps the user, revokes the sessions, and may open a new one, in
three statements. A login reads the hash in one and opens its session in another.
-/

namespace Ploykit.Accounts

open Lib hiding Time
open Webx
open Identity (Time hour)

/-! ## The requests -/

/-- Logins with a password, confirmations of it, and its changes. -/
def passwordCalls : Call → Prop
  | .loginWithPassword .. => True
  | .resetPassword .. => True
  | .adminSetPassword .. => True
  | .request (.session _) (.changePassword ..) => True
  | .request (.session _) (.confirmPassword ..) => True
  | _ => False

/-- The password that a session was opened on, as how often it had been replaced. -/
def Proof.generation : Proof → Option Nat
  | password generation => some generation
  | change generation => some generation
  | _ => none

/-- The statements of these requests. -/
def Query.OfPasswords : {β : Type} → Query β → Prop
  | _, .getUser _ => True
  | _, .getUserByEmail _ => True
  | _, .setPasswordHash _ _ _ => True
  | _, .createSession _ proof _ _ _ _ _ => proof.generation.isSome
  | _, .verifySession _ _ => True
  | _, .renewSession _ _ => True
  | _, .confirmSessionPassword _ _ _ => True
  | _, .revokeAllUserSessions change _ => change.isSome
  | _, _ => False

section keeps

open Lib.Proc

variable {svc : Service} {p : Principal} {party : Party} {newToken ipHash userID : String}

abbrev OfPasswords {α : Type} (m : Proc α) : Prop := Keeps Query.OfPasswords m

theorem ofPasswords_confirmPassword {password : String} : OfPasswords (svc.confirmPassword ipHash p password) := by
  refine issues_bind (keeps_db trivial) fun user => issues_bind (issues_attempt trivial) fun limited => ?_
  refine issues_ite (fun _ => keeps_refuse) fun _ => issues_ite (fun _ => keeps_refuse) fun _ => ?_
  exact issues_bind (issues_ask trivial) fun now => keeps_dbOr trivial

theorem ofPasswords_replacePassword {hash : String} : OfPasswords (Service.replacePassword userID hash) := by
  refine issues_bind (issues_ask trivial) fun now => issues_bind (keeps_db trivial) fun generation => ?_
  exact issues_bind (keeps_db rfl) fun _ => issues_pure

theorem ofPasswords_changePassword {oldPassword newPassword : String} :
    OfPasswords (svc.changePassword party newToken p oldPassword newPassword) := by
  refine issues_bind (keeps_db trivial) fun user => issues_ite (fun _ => keeps_refuse) fun _ => ?_
  refine issues_ite (fun _ => keeps_refuse) fun _ => issues_ite (fun _ => keeps_refuse) fun _ => ?_
  refine issues_bind (issues_attempt trivial) fun hash => issues_bind ofPasswords_replacePassword fun generation => ?_
  exact issues_bind (keeps_createSession fun _ => rfl) fun _ => issues_pure

theorem ofPasswords_resetPassword {rawEmail token newPassword : String} :
    OfPasswords (svc.resetPassword rawEmail token newPassword) := by
  refine issues_ite (fun _ => keeps_refuse) fun _ => issues_bind (keeps_db trivial) fun user => ?_
  cases user with
  | none => exact keeps_refuse
  | some u =>
    refine issues_bind (issues_attempt trivial) fun id => issues_ite (fun _ => keeps_refuse) fun _ => ?_
    refine issues_bind (issues_attempt trivial) fun _ => issues_bind (issues_attempt trivial) fun hash => ?_
    exact issues_bind ofPasswords_replacePassword fun _ => issues_pure

theorem ofPasswords_adminSetPassword {newPassword : String} : OfPasswords (Service.adminSetPassword userID newPassword) := by
  refine issues_bind (keeps_dbOr trivial) fun _ => issues_ite (fun _ => keeps_refuse) fun _ => ?_
  exact issues_bind (issues_attempt trivial) fun hash => ofPasswords_replacePassword

theorem ofPasswords_authenticate {token : String} : OfPasswords (authenticate (.session token)) := by
  refine issues_bind (issues_ask trivial) fun now => issues_bind (issues_ask trivial) fun r => ?_
  rcases r with e | p
  · exact keeps_refuse
  · cases p with
    | none => exact issues_pure
    | some p => exact issues_bind (issues_ask trivial) fun _ => issues_pure

theorem ofPasswords_requireHuman {p : Option Principal} : OfPasswords (requireHuman p) := by
  cases p with
  | none => exact keeps_refuse
  | some p => exact issues_ite (fun _ => keeps_refuse) fun _ => issues_pure

theorem ofPasswords_call {c : Call} (h : passwordCalls c) : OfPasswords (c.exec svc) := by
  cases c with
  | loginWithPassword =>
    exact issues_bind (keeps_loginWithPassword (fun _ => trivial) fun _ _ _ => rfl) fun _ => issues_pure
  | resetPassword => exact issues_bind ofPasswords_resetPassword fun _ => issues_pure
  | adminSetPassword => exact issues_bind ofPasswords_adminSetPassword fun _ => issues_pure
  | request c a =>
    cases c with
    | session token =>
      refine issues_bind ofPasswords_authenticate fun p => ?_
      cases a with
      | changePassword =>
        exact issues_bind ofPasswords_requireHuman fun p => issues_bind ofPasswords_changePassword fun _ => issues_pure
      | confirmPassword =>
        exact issues_bind ofPasswords_requireHuman fun p => issues_bind ofPasswords_confirmPassword fun _ => issues_pure
      | _ => exact h.elim
    | _ => exact h.elim
  | _ => exact h.elim

end keeps

/-! ## The order that is needed -/

/-- The session still counts on a password that has been replaced. -/
def Session.Stale (s : Session) (u : User) : Prop := ∃ k, s.proof.generation = some k ∧ k < u.generation

/-- A session is opened on a password that is still the user's, or by a time before the stamp, and on
a change by one after it. The stamp goes behind no session on an older password, and the sessions are not
revoked that a later change has opened. -/
def Query.InOrder : {β : Type} → Query β → World → Prop
  | _, .createSession _ proof _ userID _ _ now, w => ∀ u, w.users.get userID = some u →
      (∀ k, proof.generation = some k → k ≠ u.generation → ∃ t, u.tokensValidAfter = some t ∧ now ≤ t) ∧
      (proof = .change u.generation → ∀ t, u.tokensValidAfter = some t → t < now)
  | _, .setPasswordHash userID _ now, w => ∀ u token s, w.users.get userID = some u → w.sessions.get token = some s →
      s.userID = userID → s.revokedAt = none → s.Stale u → s.createdAt ≤ now
  | _, .revokeAllUserSessions _ userID, w => ∀ u token s, w.users.get userID = some u → w.sessions.get token = some s →
      s.userID = userID → s.revokedAt = none → s.proof ≠ .change u.generation
  | _, _, _ => True

/-! ## What is kept -/

/-- Whoever confirms with a password has not been closed after it. -/
def Event.Timely (later earlier : Event) : Prop :=
  ∀ userID generation k, later = .confirmed userID k → earlier = .closed userID generation → generation ≤ k

/-- Of passwords and sessions. -/
def Event.ofPassword : Event → Bool
  | .closed _ _ => true
  | .confirmed _ _ => true
  | _ => false

structure World.Secured (w : World) : Prop where
  closed : ∀ userID generation, .closed userID generation ∈ w.history →
    ∃ u, w.users.get userID = some u ∧ generation ≤ u.generation
  born : ∀ token s, w.sessions.get token = some s → ∃ u, w.users.get s.userID = some u ∧ s.born ≤ u.generation
  changes : ∀ token s k, w.sessions.get token = some s → s.proof = .change k →
    ∃ u, w.users.get s.userID = some u ∧ k ≤ u.generation
  shut : ∀ token s k generation, w.sessions.get token = some s → s.proof.generation = some k →
    .closed s.userID generation ∈ w.history → k < generation →
    s.revokedAt ≠ none ∨ ∃ u t, w.users.get s.userID = some u ∧ u.tokensValidAfter = some t ∧ s.createdAt ≤ t
  revoked : ∀ token s generation, w.sessions.get token = some s → .closed s.userID generation ∈ w.history →
    s.born < generation → s.revokedAt ≠ none
  current : ∀ token s u, w.sessions.get token = some s → w.users.get s.userID = some u → s.proof = .change u.generation →
    s.revokedAt = none ∧ ∀ t, u.tokensValidAfter = some t → t < s.createdAt
  timely : w.history.Pairwise Event.Timely

namespace World.Secured

variable {w w' : World}

/-- Nothing has changed but times of sessions, and the record by what is not of passwords. -/
theorem quiet (h : w.Secured) (husers : w'.users = w.users)
    (hsessions : ∀ token s', w'.sessions.get token = some s' →
      ∃ s, w.sessions.get token = some s ∧ s.Becomes s' ∧ s'.revokedAt = s.revokedAt)
    {es : List Event} (hhistory : w'.history = es ++ w.history) (hes : ∀ e ∈ es, e.ofPassword = false) : w'.Secured := by
  have hold : ∀ userID generation, .closed userID generation ∈ w'.history → .closed userID generation ∈ w.history := by
    intro userID generation hmem
    rw [hhistory] at hmem
    rcases List.mem_append.1 hmem with hmem | hmem
    · cases hes _ hmem
    · exact hmem
  refine ⟨fun userID generation hmem => ?_, fun token s' hs' => ?_, fun token s' k hs' hproof => ?_,
    fun token s' k generation hs' hproof hclosed hlt => ?_, fun token s' generation hs' hclosed hlt => ?_,
    fun token s' u hs' hu hproof => ?_, ?_⟩
  · rw [husers]
    exact h.closed userID generation (hold _ _ hmem)
  · obtain ⟨s, hs, hbecomes, -⟩ := hsessions token s' hs'
    rw [husers, hbecomes.userID, hbecomes.born]
    exact h.born token s hs
  · obtain ⟨s, hs, hbecomes, -⟩ := hsessions token s' hs'
    rw [husers, hbecomes.userID]
    exact h.changes token s k hs (hbecomes.proof ▸ hproof)
  · obtain ⟨s, hs, hbecomes, hrevoked⟩ := hsessions token s' hs'
    rw [husers, hbecomes.userID, hrevoked, hbecomes.createdAt]
    exact h.shut token s k generation hs (hbecomes.proof ▸ hproof) (hold _ _ (hbecomes.userID ▸ hclosed)) hlt
  · obtain ⟨s, hs, hbecomes, hrevoked⟩ := hsessions token s' hs'
    rw [hrevoked]
    exact h.revoked token s generation hs (hold _ _ (hbecomes.userID ▸ hclosed)) (hbecomes.born ▸ hlt)
  · obtain ⟨s, hs, hbecomes, hrevoked⟩ := hsessions token s' hs'
    rw [hrevoked, hbecomes.createdAt]
    rw [husers, hbecomes.userID] at hu
    exact h.current token s u hs hu (hbecomes.proof ▸ hproof)
  · rw [hhistory]
    refine List.pairwise_append.2 ⟨?_, h.timely, ?_⟩
    · refine List.pairwise_of_forall_mem_list fun e he e' _ userID generation k hlater _ => ?_
      rw [hlater] at he
      cases hes _ he
    · intro e he e' _ userID generation k hlater _
      rw [hlater] at he
      cases hes _ he

/-- A session is confirmed with a password that no change has closed. -/
theorem confirm (h : w.Secured) {userID : String} {k : Nat}
    (hopen : ∀ generation, .closed userID generation ∈ w.history → generation ≤ k) : (w.record [.confirmed userID k]).Secured := by
  have hold : ∀ userID' generation, .closed userID' generation ∈ (w.record [.confirmed userID k]).history →
      .closed userID' generation ∈ w.history := by
    intro userID' generation hmem
    rcases List.mem_cons.1 hmem with heq | hmem
    · cases heq
    · exact hmem
  refine ⟨fun userID' generation hmem => h.closed userID' generation (hold _ _ hmem), h.born, h.changes,
    fun token s k' generation hs hproof hclosed => h.shut token s k' generation hs hproof (hold _ _ hclosed),
    fun token s generation hs hclosed => h.revoked token s generation hs (hold _ _ hclosed), h.current, ?_⟩
  refine List.pairwise_cons.2 ⟨fun e he userID' generation k' hlater hearlier => ?_, h.timely⟩
  cases hlater
  rw [hearlier] at he
  exact hopen generation he

/-- The sessions of the user are revoked after the change. -/
theorem close (h : w.Secured) {userID : String} {generation : Nat} {u : User} (hu : w.users.get userID = some u)
    (hle : generation ≤ u.generation) (horder : (Query.revokeAllUserSessions (some generation) userID).InOrder w) :
    ((w.revoke (·.userID = userID) w.clock).record [.closed userID generation]).Secured := by
  have hsessions : ∀ token s', (w.revoke (·.userID = userID) w.clock).sessions.get token = some s' →
      ∃ s, w.sessions.get token = some s ∧ s.Becomes s' ∧
        (s.userID = userID ∧ s'.revokedAt ≠ none ∨ s.userID ≠ userID ∧ s' = s) := by
    intro token s' hs'
    obtain ⟨s, hs, hbecomes, hcase⟩ := World.get_revoke hs'
    simp only [decide_eq_true_eq, decide_eq_false_iff_not] at hcase
    exact ⟨s, hs, hbecomes, hcase⟩
  have hold : ∀ userID' g, userID' ≠ userID → .closed userID' g ∈ ((w.revoke (·.userID = userID) w.clock).record
      [.closed userID generation]).history → .closed userID' g ∈ w.history := by
    intro userID' g hne hmem
    rcases List.mem_cons.1 hmem with heq | hmem
    · cases heq
      exact absurd rfl hne
    · exact hmem
  refine ⟨fun userID' g hmem => ?_, fun token s' hs' => ?_, fun token s' k hs' hproof => ?_,
    fun token s' k g hs' hproof hclosed hlt => ?_, fun token s' g hs' hclosed hlt => ?_,
    fun token s' u' hs' hu' hproof => ?_, ?_⟩
  · rcases List.mem_cons.1 hmem with heq | hmem
    · cases heq
      exact ⟨u, hu, hle⟩
    · exact h.closed userID' g hmem
  · obtain ⟨s, hs, hbecomes, -⟩ := hsessions token s' hs'
    rw [hbecomes.userID, hbecomes.born]
    exact h.born token s hs
  · obtain ⟨s, hs, hbecomes, -⟩ := hsessions token s' hs'
    rw [hbecomes.userID]
    exact h.changes token s k hs (hbecomes.proof ▸ hproof)
  · obtain ⟨s, hs, hbecomes, ⟨-, hrevoked⟩ | ⟨hother, rfl⟩⟩ := hsessions token s' hs'
    · exact .inl hrevoked
    · exact h.shut token s' k g hs hproof (hold _ _ hother hclosed) hlt
  · obtain ⟨s, hs, hbecomes, ⟨-, hrevoked⟩ | ⟨hother, rfl⟩⟩ := hsessions token s' hs'
    · exact hrevoked
    · exact h.revoked token s' g hs (hold _ _ hother hclosed) hlt
  · obtain ⟨s, hs, hbecomes, ⟨huser, -⟩ | ⟨-, rfl⟩⟩ := hsessions token s' hs'
    · -- such a session is not revoked by a change that is late
      have hu' : w.users.get s.userID = some u' := hbecomes.userID ▸ hu'
      have hproof : s.proof = .change u'.generation := hbecomes.proof ▸ hproof
      have hlive : s.revokedAt = none := (h.current token s u' hs hu' hproof).1
      exact absurd hproof (horder u' token s (huser ▸ hu') hs huser hlive)
    · exact h.current token s' u' hs hu' hproof
  · refine List.pairwise_cons.2 ⟨fun e _ userID' g k hlater _ => ?_, h.timely⟩
    cases hlater

/-- A session is opened in order. -/
theorem openSession (h : w.Secured) {cfg : Config} {party : Party} {proof : Proof} {newToken userID : String}
    {passwordConfirmed : Bool} {impersonatedBy : Option Actor} {now : Time} {u : User} (hu : w.users.get userID = some u)
    (hfresh : w.sessions.get (cfg.session party proof newToken passwordConfirmed impersonatedBy now u).token = none)
    (hchange : ∀ k, proof = .change k → k ≤ u.generation)
    (horder : (Query.createSession party proof newToken userID passwordConfirmed impersonatedBy now).InOrder w) :
    ({ w with sessions := w.sessions.insert (cfg.session party proof newToken passwordConfirmed impersonatedBy now u) hfresh } :
      World).Secured := by
  have hsessions : ∀ token s, (w.sessions.insert (cfg.session party proof newToken passwordConfirmed impersonatedBy now u)
      hfresh).get token = some s → w.sessions.get token = some s ∨
        s = cfg.session party proof newToken passwordConfirmed impersonatedBy now u := by
    intro token s hs
    rw [Keyed.get_insert] at hs
    split at hs
    · exact .inr (Option.some.inj hs).symm
    · exact .inl hs
  have huser : u.id = userID := Keyed.key_of_get hu
  have hself : w.users.get u.id = some u := huser.symm ▸ hu
  have hclosed : ∀ g, .closed u.id g ∈ w.history → g ≤ u.generation := by
    intro g hmem
    obtain ⟨u', hu', hle⟩ := h.closed u.id g hmem
    obtain rfl : u = u' := Option.some.inj (hself.symm.trans hu')
    exact hle
  refine ⟨h.closed, fun token s hs => ?_, fun token s k hs hproof => ?_, fun token s k g hs hproof hmem hlt => ?_,
    fun token s g hs hmem hlt => ?_, fun token s u' hs hu' hproof => ?_, h.timely⟩
  · rcases hsessions token s hs with hs | rfl
    · exact h.born token s hs
    · exact ⟨u, hself, le_rfl⟩
  · rcases hsessions token s hs with hs | rfl
    · exact h.changes token s k hs hproof
    · exact ⟨u, hself, hchange k hproof⟩
  · rcases hsessions token s hs with hs | rfl
    · exact h.shut token s k g hs hproof hmem hlt
    · have hne : k ≠ u.generation := (hlt.trans_le (hclosed g hmem)).ne
      obtain ⟨t, ht, hle⟩ := (horder u hu).1 k hproof hne
      exact .inr ⟨u, t, hself, ht, hle⟩
  · rcases hsessions token s hs with hs | rfl
    · exact h.revoked token s g hs hmem hlt
    · exact absurd (hclosed g hmem) (not_le.2 hlt)
  · rcases hsessions token s hs with hs | rfl
    · exact h.current token s u' hs hu' hproof
    · obtain rfl : u = u' := Option.some.inj (hself.symm.trans hu')
      exact ⟨rfl, (horder u hu).2 hproof⟩

/-- The password is replaced in order. -/
theorem replace (h : w.Secured) {userID passwordHash : String} {now : Time}
    (horder : (Query.setPasswordHash userID passwordHash now).InOrder w) :
    (w.updateUser userID fun u =>
      { u with passwordHash, tokensValidAfter := some now, generation := u.generation + 1 }).Secured := by
  have husers : ∀ id u₀, w.users.get id = some u₀ → ∃ u', (w.updateUser userID fun u =>
      { u with passwordHash, tokensValidAfter := some now, generation := u.generation + 1 }).users.get id = some u' ∧
      u₀.generation ≤ u'.generation ∧ (id ≠ userID → u' = u₀) ∧
      (id = userID → u'.generation = u₀.generation + 1 ∧ u'.tokensValidAfter = some now) := by
    intro id u₀ hu₀
    simp only [World.updateUser, Keyed.get_update, hu₀, List.mem_singleton]
    by_cases hid : id = userID
    · rw [if_pos hid]
      exact ⟨_, rfl, Nat.le_succ _, fun hne => absurd hid hne, fun _ => ⟨rfl, rfl⟩⟩
    · rw [if_neg hid]
      exact ⟨u₀, rfl, le_rfl, fun _ => rfl, fun heq => absurd heq hid⟩
  refine ⟨fun id g hmem => ?_, fun token s hs => ?_, fun token s k hs hproof => ?_, fun token s k g hs hproof hmem hlt => ?_,
    h.revoked, fun token s u' hs hu' hproof => ?_, h.timely⟩
  · obtain ⟨u₀, hu₀, hle⟩ := h.closed id g hmem
    obtain ⟨u', hu', hgrows, -⟩ := husers id u₀ hu₀
    exact ⟨u', hu', hle.trans hgrows⟩
  · obtain ⟨u₀, hu₀, hle⟩ := h.born token s hs
    obtain ⟨u', hu', hgrows, -⟩ := husers s.userID u₀ hu₀
    exact ⟨u', hu', hle.trans hgrows⟩
  · obtain ⟨u₀, hu₀, hle⟩ := h.changes token s k hs hproof
    obtain ⟨u', hu', hgrows, -⟩ := husers s.userID u₀ hu₀
    exact ⟨u', hu', hle.trans hgrows⟩
  · rcases h.shut token s k g hs hproof hmem hlt with hrevoked | ⟨u₀, t, hu₀, ht, hle⟩
    · exact .inl hrevoked
    · obtain ⟨u', hu', -, hother, hself⟩ := husers s.userID u₀ hu₀
      by_cases hid : s.userID = userID
      · cases hlive : s.revokedAt with
        | some t' => exact .inl (by simp)
        | none =>
          obtain ⟨u₁, hu₁, hg⟩ := h.closed s.userID g hmem
          obtain rfl : u₀ = u₁ := Option.some.inj (hu₀.symm.trans hu₁)
          have hstale : s.Stale u₀ := ⟨k, hproof, hlt.trans_le hg⟩
          exact .inr ⟨u', now, hu', (hself hid).2, horder u₀ token s (hid ▸ hu₀) hs hid hlive hstale⟩
      · obtain rfl : u' = u₀ := hother hid
        exact .inr ⟨u', t, hu', ht, hle⟩
  · obtain ⟨u₀, hu₀, hborn⟩ := h.born token s hs
    obtain ⟨u'', hu'', -, hother, hself⟩ := husers s.userID u₀ hu₀
    obtain rfl : u' = u'' := Option.some.inj (hu'.symm.trans hu'')
    by_cases hid : s.userID = userID
    · obtain ⟨u₁, hu₁, hle⟩ := h.changes token s u'.generation hs hproof
      obtain rfl : u₀ = u₁ := Option.some.inj (hu₀.symm.trans hu₁)
      rw [(hself hid).1] at hle
      exact absurd hle (Nat.not_succ_le_self _)
    · obtain rfl : u' = u₀ := hother hid
      exact h.current token s u' hs hu₀ hproof

theorem record (h : w.Secured) {es : List Event} (hes : ∀ e ∈ es, e.ofPassword = false) : (w.record es).Secured :=
  h.quiet rfl (fun _ s hs => ⟨s, hs, .rfl, rfl⟩) rfl hes

/-- Sessions are renewed or confirmed. -/
theorem change (h : w.Secured) {which : Session → Bool} {f : Session → Session}
    (hf : ∀ s : Session, s.Becomes (f s))
    (hrevoked : ∀ s, (f s).revokedAt = s.revokedAt) : (w.updateSessions which f fun s => (hf s).token).Secured := by
  have hnone : ∀ e ∈ ([] : List Event), e.ofPassword = false := fun e he => absurd he List.not_mem_nil
  refine h.quiet rfl (fun token s' hs' => ?_) (List.nil_append _).symm hnone
  rw [World.updateSessions, Keyed.get_change] at hs'
  obtain ⟨s, hs, rfl⟩ := Option.map_eq_some_iff.1 hs'
  refine ⟨s, hs, ?_⟩
  cases which s with
  | true => exact ⟨hf s, hrevoked s⟩
  | false => exact ⟨.rfl, rfl⟩

end World.Secured

/-- The session that is to be confirmed is no younger than the password that was read. -/
def Progress.Confirms (γ : Progress) (w : World) : Prop :=
  ∀ p u s, γ.caller = some p → p.source = .session → γ.row = some (.byID p.userID, u) →
    w.sessions.get p.credential = some s → s.born ≤ u.generation

theorem Query.answered_ofPassword {β : Type} {q : Query β} {w : World} {r : Except Err β} :
    ∀ e ∈ q.answered w r, e.ofPassword = false := by
  intro e he
  cases q with
  | verifySession token now =>
    rcases r with _ | p
    · cases he
    · cases p with
      | some p =>
        cases List.mem_singleton.1 he
        rfl
      | none =>
        simp only [answered] at he
        split at he
        · cases List.mem_singleton.1 he
          rfl
        · cases he
  | _ => cases he

/-- What is executed in order keeps the sessions secured. -/
theorem World.Secured.records {cfg : Config} {old : List OAuthAccount} {w : World} {γ : Progress} {β : Type} {q : Query β}
    (h : w.Secured) (hpasswords : q.OfPasswords) (horder : q.InOrder w) (hasks : γ.Asks q) (hholds : γ.Holds old w)
    (hconfirms : γ.Confirms w) : ((q.exec cfg w).2.record (q.records cfg w)).Secured := by
  cases q with
  | getUser id =>
    refine World.Secured.record ?_ fun e he => by cases (Query.mem_records he).2
    simp only [Query.exec]
    split
    · split <;> exact h
    · exact h
  | getUserByEmail email => exact h
  | verifySession token now => exact h
  | renewSession token now => exact h.change (fun _ => .renewed) fun _ => rfl
  | setPasswordHash userID passwordHash now =>
    refine World.Secured.record ?_ fun e he => by cases (Query.mem_records he).2
    simp only [Query.exec]
    split
    · exact h
    · exact h.replace horder
  | confirmSessionPassword generation token now =>
    cases hfind : w.sessions.find (·.confirmable token now) with
    | none =>
      simp only [Query.records, Query.exec, hfind]
      exact h
    | some s =>
      have hconfirmed : (w.updateSessions (·.confirmable token now) fun s => { s with passwordConfirmedAt := some now }).Secured :=
        h.change (fun _ => .passwordConfirmed) fun _ => rfl
      obtain ⟨p, u, hcaller, hsource, htoken, hrow, rfl⟩ := hasks
      obtain ⟨hmem, hconfirmable⟩ := Keyed.mem_of_find hfind
      simp only [Session.confirmable, decide_eq_true_eq] at hconfirmable
      have hget : w.sessions.get p.credential = some s := by
        rw [htoken, ← hconfirmable.1]
        exact Keyed.get_of_mem hmem
      have hborn : s.born ≤ u.generation := hconfirms p u s hcaller hsource hrow hget
      simp only [Query.records, Query.exec, Query.events, hfind, Option.isNone_some, Bool.false_eq_true, if_false,
        Except.toBool, if_true, Option.toList_some, List.map_cons, List.map_nil]
      refine hconfirmed.confirm fun g hclosed => ?_
      by_contra hlate
      -- then the session is older than the change, which has revoked it
      exact h.revoked p.credential s g hget hclosed (hborn.trans_lt (not_le.1 hlate)) hconfirmable.2.1
  | revokeAllUserSessions change userID =>
    cases change with
    | none => cases hpasswords
    | some generation =>
      obtain ⟨u, hu, hle⟩ := hholds.replaced userID generation hasks
      exact h.close hu hle horder
  | createSession party proof newToken userID passwordConfirmed impersonatedBy now =>
    have hquiet : ∀ e ∈ (Query.createSession party proof newToken userID passwordConfirmed impersonatedBy now).records cfg w,
        e.ofPassword = false := by
      intro e he
      have hevents := (Query.mem_records he).2
      simp only [Query.events, List.mem_append, List.mem_map] at hevents
      rcases hevents with ⟨_, -, rfl⟩ | ⟨_, -, rfl⟩ <;> rfl
    refine World.Secured.record ?_ hquiet
    simp only [Query.exec]
    split
    · exact h
    · rename_i u hu
      split
      · exact h
      · split
        · rename_i hfresh
          refine h.openSession hu hfresh (fun k hk => ?_) horder
          subst hk
          cases impersonatedBy with
          | some actor => exact hasks.elim
          | none =>
            obtain ⟨u', hu', hle⟩ := hholds.replaced userID k hasks.1
            obtain rfl : u = u' := Option.some.inj (hu.symm.trans hu')
            exact hle
        · exact h
  | _ => exact hpasswords.elim

theorem Progress.Confirms.grows {old : List OAuthAccount} {w w' : World} {γ : Progress} (h : γ.Confirms w) (hholds : γ.Holds old w)
    (hgrows : w.Grows w') : γ.Confirms w' := by
  intro p u s' hcaller hsource hrow hs'
  obtain ⟨s, hs, -, -⟩ := hholds.caller p hcaller hsource
  obtain ⟨s'', hs'', hbecomes⟩ := hgrows.sessions hs
  obtain rfl : s' = s'' := Option.some.inj (hs'.symm.trans hs'')
  rw [hbecomes.born]
  exact h p u s hcaller hsource hrow hs

theorem Progress.Confirms.told {cfg : Config} {old : List OAuthAccount} {w : World} {γ : Progress} {β : Type} {q : Query β}
    {r : Except Err β} (h : γ.Confirms w) (hpasswords : q.OfPasswords) (hholds : γ.Holds old w) (hsecured : w.Secured)
    (htold : q.Told cfg w r) : (γ.told q r).Confirms (q.effect cfg w r) := by
  have hγ : γ.Confirms (q.effect cfg w r) := h.grows hholds (.of_effect q w r)
  cases r with
  | error e =>
    rw [told_error]
    exact hγ
  | ok a =>
    cases q with
    | verifySession token now =>
      intro p u s _ _ hrow
      cases hrow
    | getUserByEmail email =>
      intro p u s _ _ hrow
      obtain ⟨u', -, heq⟩ := Option.map_eq_some_iff.1 hrow
      cases heq
    | getUser id =>
      intro p u s hcaller hsource hrow hs
      cases hrow
      obtain ⟨s₀, hs₀, huser, -⟩ := hholds.caller p hcaller hsource
      have hs : w.sessions.get p.credential = some s := by
        rw [Query.effect_sessions, Query.exec_sessions (by simp [Query.touchesSessions])] at hs
        exact hs
      obtain rfl : s = s₀ := Option.some.inj (hs.symm.trans hs₀)
      obtain ⟨u, hu, hle⟩ := hsecured.born p.credential s hs
      have hexec := htold.exec_eq
      simp only [Query.exec, ← huser, hu] at hexec
      split at hexec <;> cases hexec
      exact hle
    | revokeAllUserSessions change userID => cases change <;> exact hγ
    | createSession party proof newToken userID passwordConfirmed impersonatedBy now => cases proof <;> exact hγ
    | setPasswordHash | renewSession | confirmSessionPassword => exact hγ
    | _ => exact hpasswords.elim

/-! ## Runs -/

/-- All these requests, whose statements are executed in order. -/
abbrev passwordRuns (svc : Service) : Pool Op World (Except Err Reply) → Pool Op World (Except Err Reply) → Prop :=
  Pool.Next (machineGiven svc Query.InOrder) (Program svc passwordCalls)

/-- Nothing is on record yet, and no session was opened by a change. -/
structure World.Unchanged (w : World) : Prop where
  history : w.history = []
  born : ∀ token s, w.sessions.get token = some s → ∃ u, w.users.get s.userID = some u ∧ s.born ≤ u.generation
  proof : ∀ token s k, w.sessions.get token = some s → s.proof ≠ .change k

theorem World.Unchanged.secured {w : World} (h : w.Unchanged) : w.Secured where
  closed userID g hmem := by
    rw [h.history] at hmem
    cases hmem
  born := h.born
  changes token s k hs hproof := absurd hproof (h.proof token s k hs)
  shut token s k g _ _ hmem := by
    rw [h.history] at hmem
    cases hmem
  revoked token s g _ hmem := by
    rw [h.history] at hmem
    cases hmem
  current token s u hs _ hproof := absurd hproof (h.proof token s u.generation hs)
  timely := by
    rw [h.history]
    exact .nil

section runs

variable {svc : Service} {w : World} {past past' : List (Pool Op World (Except Err Reply))}
  {p q : Pool Op World (Except Err Reply)}

theorem run_secured (hw : w.Unchanged) (h : Run (passwordRuns svc) (.idle w) past p) : p.shared.Secured := by
  have hcalls : ∀ m, Program svc passwordCalls m → m.Calls fun o => o.Within Query.OfPasswords := by
    rintro m ⟨c, hc, rfl⟩
    exact (ofPasswords_call hc).calls
  have hrun := run_within h hcalls (Pool.calls_idle w)
  have hstep {β : Type} (q : Query β) (x : World × (Nat → Progress)) (i : Nat) (r : Except Err β)
      (htold : q.Told svc.cfg x.1 r) (hC : q.OfPasswords ∧ q.InOrder x.1) (hasks : (x.2 i).Asks q)
      (hknown : Known w.links.rows x) (hx : x.1.Secured ∧ ∀ i, (x.2 i).Confirms x.1) :
      (q.effect svc.cfg x.1 r).Secured ∧
        ∀ j, (Function.update x.2 i ((x.2 i).told q r) j).Confirms (q.effect svc.cfg x.1 r) := by
    refine ⟨?_, fun j => ?_⟩
    · rw [Query.effect, World.record_append]
      exact (hx.1.records hC.1 hC.2 hasks (hknown.holds i) (hx.2 i)).record Query.answered_ofPassword
    · by_cases hji : j = i
      · subst hji
        simpa using (hx.2 j).told hC.1 (hknown.holds j) hx.1 htold
      · simpa [Function.update_of_ne hji] using (hx.2 j).grows (hknown.holds j) (.of_effect q x.1 r)
  obtain ⟨-, p', -, rfl, -, -, hsecured, -⟩ := known_run (I := fun x => x.1.Secured ∧ ∀ i, (x.2 i).Confirms x.1) hrun
    ⟨hw.secured, fun i p u s hcaller => by cases hcaller⟩ hstep
    fun x t _ hx => ⟨⟨hx.1.1, hx.1.2, hx.1.3, hx.1.4, hx.1.5, hx.1.6, hx.1.7⟩, hx.2⟩
  exact hsecured

/-- After a change of password has returned, no session that was opened on an older one is
accepted, none has been confirmed with one since, and the session that the change returned is accepted until
it expires or the password is changed again. -/
theorem old_password_closed (hw : w.Unchanged) (h : Run (passwordRuns svc) (.idle w) past q) {i : Nat} {userID : String}
    {generation : Nat} {newToken : Option String}
    (hi : q.session i = some (.ret (.ok (.changed userID generation newToken)))) (h' : Run (passwordRuns svc) q past' p) :
    (∀ token s k, p.shared.sessions.get token = some s → s.userID = userID → s.proof.generation = some k → k < generation →
      ∀ now, p.shared.verify token now = none) ∧
    (∃ since, p.shared.history = since ++ q.shared.history ∧ ∀ k, .confirmed userID k ∈ since → generation ≤ k) ∧
    ∀ token, newToken = some token → ∃ s, p.shared.sessions.get token = some s ∧ s.userID = userID ∧
      ∀ u now, p.shared.users.get userID = some u → u.generation = generation → u.status = .active →
        now < s.expiresAt → now < s.absoluteExpiresAt → p.shared.verify token now = some (s.principal u) := by
  obtain ⟨γ, -, ⟨hclosed, hreopened⟩, hγ⟩ := run_replied h hi
  have hgrows : q.shared.Grows p.shared := run_grows h'
  have hclosed : .closed userID generation ∈ q.shared.history := hγ.closed userID generation hclosed
  have hsecured : p.shared.Secured := run_secured hw (h.trans h')
  refine ⟨fun token s k hs huser hproof hlt now => ?_, ?_, fun token htoken => ?_⟩
  · cases hverify : p.shared.verify token now with
    | none => rfl
    | some principal =>
      obtain ⟨s', u, hs', hu, hlive, hadmits, -⟩ := World.verify_some hverify
      obtain rfl : s = s' := Option.some.inj (hs.symm.trans hs')
      simp only [User.admits, decide_eq_true_eq] at hadmits
      rcases hsecured.shut token s k generation hs hproof (huser ▸ hgrows.mem hclosed) hlt with hrevoked | ⟨u', t, hu', ht, hle⟩
      · cases hr : s.revokedAt with
        | none => exact absurd hr hrevoked
        | some t => simp [Session.dead, hr] at hlive
      · obtain rfl : u = u' := Option.some.inj (hu.symm.trans hu')
        have hlater := hadmits.2
        simp only [ht, Option.all_some, decide_eq_true_eq] at hlater
        exact absurd hle (not_le.2 hlater)
  · obtain ⟨since, hsince⟩ := hgrows.history
    refine ⟨since, hsince.symm, fun k hk => ?_⟩
    have htimely := hsecured.timely
    rw [← hsince] at htimely
    exact (List.pairwise_append.1 htimely).2.2 _ hk _ hclosed userID generation k rfl rfl
  · obtain ⟨s, hs, huser, hproof⟩ := (hγ.grows hgrows).reopened _ (hreopened token htoken)
    refine ⟨s, hs, huser, fun u now hu hgeneration hactive hexpiry habsolute => ?_⟩
    have hs : p.shared.sessions.get token = some s := hs
    obtain rfl : s.userID = userID := huser
    obtain ⟨hlive, hadmits⟩ := hsecured.current token s u hs hu (hgeneration ▸ hproof)
    have hdead : s.dead now = false := by simp [Session.dead, hlive, hexpiry, habsolute]
    have hadmitted : u.admits s := by
      simp only [User.admits, hactive, true_and, decide_eq_true_eq]
      cases ht : u.tokensValidAfter with
      | none => rfl
      | some t => simpa using hadmits t ht
    simp [World.verify, hs, hu, hdead, hadmitted]

end runs

/-! ### Two schedules -/

/-- A login with the password of `annWorld`, and a change of it. -/
def annLogin : Call := .loginWithPassword 1 "t" "" "ann@example.com" "Tr0ub4dor&3"

def annReset : Call := .resetPassword "ann@example.com" "link" "N3w-passw0rd"

theorem annWorld_unchanged : annWorld.Unchanged where
  history := rfl
  born token s hs := by
    obtain rfl : s = annSession := List.mem_singleton.1 (Keyed.mem_of_get hs)
    exact ⟨ann, by decide, le_rfl⟩
  proof token s k hs := by
    obtain rfl : s = annSession := List.mem_singleton.1 (Keyed.mem_of_get hs)
    intro hproof
    cases hproof

/-- The session of `annWorld` changes the password, and time passes before the new one is opened. -/
def annChanges : Turns :=
  serves 0 (.request (.session "s") (.changePassword 1 "n" "Tr0ub4dor&3" "N3w-passw0rd")) 8 ++ later 1 ++ [.calls 0 2]

theorem annChanges_legal {M : Machine Op World} (hM : M.env = (machine plainService).env) :
    annChanges.Forall (Turn.Legal M (Program plainService passwordCalls)) := by
  refine List.forall_append.2 ⟨List.forall_append.2 ⟨?_, ?_⟩, ?_⟩
  · exact serves_legal trivial
  · exact later_legal hM
  · trivial

/-- Sessions are opened on the password that there is and after the stamp, and closed by the change before them. -/
def inOrder {β : Type} (q : Query β) (w : World) : Bool :=
  match q with
  | .createSession _ proof _ userID _ _ now => (w.users.get userID).all fun u =>
      proof.generation = some u.generation ∧ u.tokensValidAfter.all (· < now)
  | .setPasswordHash _ _ now => w.sessions.rows.all (·.createdAt ≤ now)
  | .revokeAllUserSessions _ userID => (w.users.get userID).all fun u => w.sessions.rows.all (·.proof ≠ .change u.generation)
  | _ => true

theorem inOrder_holds {β : Type} (q : Query β) (w : World) (h : inOrder q w) : q.InOrder w := by
  cases q with
  | createSession party proof newToken userID passwordConfirmed impersonatedBy now =>
    intro u hu
    simp only [inOrder, hu, Option.all_some, decide_eq_true_eq] at h
    refine ⟨fun k hk hne => ?_, fun _ t ht => ?_⟩
    · rw [h.1] at hk
      exact absurd (Option.some.inj hk).symm hne
    · simpa [ht] using h.2
  | setPasswordHash userID passwordHash now =>
    intro u token s _ hs _ _ _
    simpa using List.all_eq_true.1 h s (Keyed.mem_of_get hs)
  | revokeAllUserSessions change userID =>
    intro u token s hu hs _ _
    simp only [inOrder, hu, Option.all_some] at h
    simpa using List.all_eq_true.1 h s (Keyed.mem_of_get hs)
  | _ => trivial

theorem old_password_closed_ann : ∃ past p, Run (passwordRuns plainService) (.idle annWorld) past p ∧
    p.session 0 = some (.ret (.ok (.changed "ann" 1 (some "n")))) ∧ p.shared.verify "s" 1 = none ∧
    (p.shared.verify "n" 1).isSome := by
  have hplay : (Pool.play (guarded (fun _ _ o w => o.passes inOrder w) (execs noIdP)) annChanges (.idle annWorld)).any fun p =>
      p.reply 0 = some (.ok (.changed "ann" 1 (some "n"))) ∧
      ((p.shared.sessions.get "s").any fun s => s.userID = "ann" ∧ s.proof.generation = some 0) ∧
      ((p.shared.sessions.get "n").any fun s => 1 < s.expiresAt ∧ 1 < s.absoluteExpiresAt) ∧
      ((p.shared.users.get "ann").any fun u => u.generation = 1 ∧ u.status = .active) := by decide
  obtain ⟨past, p, hrun, hcheck⟩ := Pool.play_any (guarded_execs inOrder_holds) (annChanges_legal rfl) hplay
  obtain ⟨hreply, hold, hnew, hann⟩ := of_decide_eq_true hcheck
  have hsession := Pool.session_of_reply hreply
  obtain ⟨s, hs, hsold⟩ := (Option.any_eq_true _ _).1 hold
  obtain ⟨s', hs', hsnew⟩ := (Option.any_eq_true _ _).1 hnew
  obtain ⟨u, hu, huann⟩ := (Option.any_eq_true _ _).1 hann
  obtain ⟨hclosed, -, hopen⟩ := old_password_closed annWorld_unchanged hrun hsession .start
  refine ⟨past, p, hrun, hsession, ?_, ?_⟩
  · exact hclosed "s" s 0 hs (of_decide_eq_true hsold).1 (of_decide_eq_true hsold).2 Nat.one_pos 1
  · obtain ⟨s'', hs'', -, hverify⟩ := hopen "n" rfl
    obtain rfl : s' = s'' := Option.some.inj (hs'.symm.trans hs'')
    rw [hverify u 1 hu (of_decide_eq_true huann).1 (of_decide_eq_true huann).2 (of_decide_eq_true hsnew).1
      (of_decide_eq_true hsnew).2]
    rfl

/-- The login has read the hash before it is replaced, and opens its session after. -/
def loginAcross : Turns := serves 0 annLogin 2 ++ serves 1 annReset 7

def loginGoesOn : Turns := later 1 ++ [.calls 0 2]

theorem loginAcross_legal {M : Machine Op World} : loginAcross.Forall (Turn.Legal M (Program plainService passwordCalls)) :=
  List.forall_append.2 ⟨serves_legal trivial, serves_legal trivial⟩

theorem loginGoesOn_legal {M : Machine Op World} (hM : M.env = (machine plainService).env) :
    loginGoesOn.Forall (Turn.Legal M (Program plainService passwordCalls)) :=
  List.forall_append.2 ⟨later_legal hM, trivial⟩

theorem old_password_left_open : ¬ ∀ (svc : Service) (w : World), w.Unchanged →
    ∀ past past' (q p : Pool Op World (Except Err Reply)) i userID generation newToken,
      Run (Pool.Next (machine svc) (Program svc passwordCalls)) (.idle w) past q →
      q.session i = some (.ret (.ok (.changed userID generation newToken))) →
      Run (Pool.Next (machine svc) (Program svc passwordCalls)) q past' p →
      ∀ token s k, p.shared.sessions.get token = some s → s.userID = userID → s.proof.generation = some k → k < generation →
        ∀ now, p.shared.verify token now = none := by
  intro h
  have hfirst : (Pool.play (execs noIdP) loginAcross (.idle annWorld)).any fun q =>
      q.reply 1 = some (.ok (.changed "ann" 1 none)) ∧
        ((Pool.play (execs noIdP) loginGoesOn q).any fun p =>
          (p.shared.sessions.get "t").any (fun s => s.userID = "ann" ∧ s.proof.generation = some 0) ∧
            (p.shared.verify "t" 1).isSome) = true := by decide
  obtain ⟨past, q, hrun, hcheck⟩ := Pool.play_any execs_step loginAcross_legal hfirst
  obtain ⟨hreply, hsecond⟩ := of_decide_eq_true hcheck
  obtain ⟨past', p, hrun', hcheck'⟩ := Pool.play_any execs_step (loginGoesOn_legal rfl) hsecond
  obtain ⟨hsession, haccepted⟩ := of_decide_eq_true hcheck'
  obtain ⟨s, hs, hold⟩ := (Option.any_eq_true _ _).1 hsession
  obtain ⟨huser, hproof⟩ := of_decide_eq_true hold
  have hrejected := h plainService annWorld annWorld_unchanged past past' q p 1 "ann" 1 none hrun
    (Pool.session_of_reply hreply) hrun' "t" s 0 hs huser hproof Nat.one_pos 1
  rw [hrejected] at haccepted
  cases haccepted

end Ploykit.Accounts

import Ploykit.Accounts.Requests

/-!
# What accounts keep

No statement removes a user or a session, or gives a session to another user. What is recorded
stays on record.
-/

namespace Ploykit.Accounts

open Lib hiding Time
open Webx
open Identity (Time Duration)

/-! ## Rows -/

/-- A session changes by its times, and stays revoked. -/
structure Session.Becomes (s s' : Session) : Prop where
  token : s'.token = s.token
  userID : s'.userID = s.userID
  absoluteExpiresAt : s'.absoluteExpiresAt = s.absoluteExpiresAt
  createdAt : s'.createdAt = s.createdAt
  revokedAt : s.revokedAt ≠ none → s'.revokedAt = s.revokedAt
  impersonatedBy : s'.impersonatedBy = s.impersonatedBy
  openedBy : s'.openedBy = s.openedBy
  proof : s'.proof = s.proof
  born : s'.born = s.born

namespace Session.Becomes

variable {s s' s'' : Session}

theorem rfl : s.Becomes s := ⟨by rfl, by rfl, by rfl, by rfl, fun _ => by rfl, by rfl, by rfl, by rfl, by rfl⟩

theorem trans (h : s.Becomes s') (h' : s'.Becomes s'') : s.Becomes s'' where
  token := h'.token.trans h.token
  userID := h'.userID.trans h.userID
  absoluteExpiresAt := h'.absoluteExpiresAt.trans h.absoluteExpiresAt
  createdAt := h'.createdAt.trans h.createdAt
  revokedAt hs := by
    have hs' : s'.revokedAt = s.revokedAt := h.revokedAt hs
    exact (h'.revokedAt (hs' ▸ hs)).trans hs'
  impersonatedBy := h'.impersonatedBy.trans h.impersonatedBy
  openedBy := h'.openedBy.trans h.openedBy
  proof := h'.proof.trans h.proof
  born := h'.born.trans h.born

theorem renewed {cfg : Config} {now : Time} : s.Becomes (s.renewed cfg now) :=
  ⟨by rfl, by rfl, by rfl, by rfl, fun _ => by rfl, by rfl, by rfl, by rfl, by rfl⟩

theorem passwordConfirmed {now : Time} : s.Becomes { s with passwordConfirmedAt := some now } :=
  ⟨by rfl, by rfl, by rfl, by rfl, fun _ => by rfl, by rfl, by rfl, by rfl, by rfl⟩

theorem mfaConfirmed {now : Time} : s.Becomes { s with mfaConfirmedAt := some now } :=
  ⟨by rfl, by rfl, by rfl, by rfl, fun _ => by rfl, by rfl, by rfl, by rfl, by rfl⟩

theorem revoked {now : Time} : s.Becomes { s with revokedAt := s.revokedAt.or (some now) } where
  token := by rfl
  userID := by rfl
  absoluteExpiresAt := by rfl
  createdAt := by rfl
  revokedAt hs := by
    obtain ⟨t, ht⟩ := Option.ne_none_iff_exists'.1 hs
    simp [ht]
  impersonatedBy := by rfl
  openedBy := by rfl
  proof := by rfl
  born := by rfl

end Session.Becomes

theorem Session.dead_mono {s : Session} {t t' : Time} (h : s.dead t) (hle : t ≤ t') : s.dead t' := by
  simp only [Session.dead, Bool.or_eq_true, decide_eq_true_eq] at h ⊢
  rcases h with (h | h) | h
  · exact .inl (.inl h)
  · exact .inl (.inr (h.trans hle))
  · exact .inr (h.trans hle)

/-- The address that a deleted account is left with. -/
def tombstone (id : String) : String := "deleted+" ++ id ++ "@invalid"

/-- What a deletion makes of the user. -/
def User.tombstoned (now : Time) (u : User) : User :=
  { u with status := .deleted, email := tombstone u.id, passwordHash := "", tokensValidAfter := some now }

/-- A user keeps the address until deletion. -/
structure User.Becomes (u u' : User) : Prop where
  id : u'.id = u.id
  email : u'.email = u.email ∨ u'.email = tombstone u.id
  generation : u.generation ≤ u'.generation
  registeredBy : u'.registeredBy = u.registeredBy

namespace User.Becomes

variable {u u' u'' : User}

theorem rfl : u.Becomes u := ⟨by rfl, .inl (by rfl), le_rfl, by rfl⟩

theorem trans (h : u.Becomes u') (h' : u'.Becomes u'') : u.Becomes u'' where
  id := h'.id.trans h.id
  email := by
    rcases h'.email with he | he
    · rw [he]
      exact h.email
    · exact .inr (he.trans (congrArg tombstone h.id))
  generation := h.generation.trans h'.generation
  registeredBy := h'.registeredBy.trans h.registeredBy

theorem set {status : Status} {isPlatformAdmin : Bool} {emailVerifiedAt : Option Time} :
    u.Becomes { u with status, isPlatformAdmin, emailVerifiedAt } := ⟨by rfl, .inl (by rfl), le_rfl, by rfl⟩

theorem rehashed {passwordHash : String} {tokensValidAfter : Option Time} :
    u.Becomes { u with passwordHash, tokensValidAfter, generation := u.generation + 1 } :=
  ⟨by rfl, .inl (by rfl), Nat.le_succ _, by rfl⟩

theorem deleted {now : Time} : u.Becomes (u.tombstoned now) :=
  ⟨by rfl, .inr (by rfl), le_rfl, by rfl⟩

end User.Becomes

/-! ## Statements -/

namespace Query

variable {cfg : Config} {β : Type} {q : Query β} {w : World}

/-- The statement inserts the session. -/
def Opens (cfg : Config) (w : World) (s : Session) : {β : Type} → Query β → Prop
  | _, .createSession party proof newToken userID passwordConfirmed impersonatedBy now =>
    ∃ u, w.users.get userID = some u ∧ s = cfg.session party proof newToken passwordConfirmed impersonatedBy now u
  | _, _ => False

def Renews (token : String) (now : Time) : {β : Type} → Query β → Prop
  | _, .renewSession token' now' => token' = token ∧ now' = now
  | _, _ => False

/-- A statement leaves the sessions, confirms or revokes some, renews one, or inserts one. -/
theorem sessions_cases (cfg : Config) (q : Query β) (w : World) :
    (q.exec cfg w).2.sessions = w.sessions ∨
    (∃ p f, ∃ h : ∀ s : Session, s.Becomes (f s), (∀ s, (f s).expiresAt = s.expiresAt) ∧
      (q.exec cfg w).2.sessions = w.sessions.change p f fun s => (h s).token) ∨
    (∃ token now, q.Renews token now ∧
      (q.exec cfg w).2.sessions = w.sessions.change (·.due cfg token now) (·.renewed cfg now) fun _ => Session.Becomes.renewed.token) ∨
    ∃ s h, q.Opens cfg w s ∧ s.expiresAt ≤ s.absoluteExpiresAt ∧ (q.exec cfg w).2.sessions = w.sessions.insert s h := by
  cases q with
  | createSession party proof newToken userID passwordConfirmed impersonatedBy now =>
    simp only [exec]
    split
    · exact .inl rfl
    · rename_i u hu
      split
      · exact .inl rfl
      · rename_i hexpiry
        split
        · rename_i hfresh
          exact .inr (.inr (.inr ⟨_, hfresh, ⟨u, hu, rfl⟩, not_lt.1 hexpiry, rfl⟩))
        · exact .inl rfl
  | renewSession token now => exact .inr (.inr (.inl ⟨token, now, ⟨rfl, rfl⟩, rfl⟩))
  | confirmSessionPassword generation token now =>
    simp only [exec]
    split
    · exact .inl rfl
    · exact .inr (.inl ⟨_, _, fun _ => .passwordConfirmed, fun _ => rfl, rfl⟩)
  | confirmSessionMFA token now =>
    simp only [exec]
    split
    · exact .inl rfl
    · exact .inr (.inl ⟨_, _, fun _ => .mfaConfirmed, fun _ => rfl, rfl⟩)
  | revokeSession token => exact .inr (.inl ⟨_, _, fun _ => .revoked, fun _ => rfl, rfl⟩)
  | revokeAllUserSessions change userID => exact .inr (.inl ⟨_, _, fun _ => .revoked, fun _ => rfl, rfl⟩)
  | revokeUserSessionByID userID token now =>
    simp only [exec]
    split
    · exact .inr (.inl ⟨_, _, fun _ => .revoked, fun _ => rfl, rfl⟩)
    · exact .inl rfl
  | _ => exact .inl (exec_sessions Bool.false_ne_true)

/-- The statement inserts the user. -/
def Registers (u : User) : {β : Type} → Query β → Prop
  | _, .upsertUserByEmail newID email now => u = { id := newID, email, emailVerifiedAt := some now }
  | _, .createUserWithPassword party newID email passwordHash =>
    u = { id := newID, email, passwordHash, registeredBy := some party }
  | _, _ => False

theorem insertUser_cases (w : World) (u : User) :
    (w.insertUser u).2.users = w.users ∨
      ∃ h, w.users.find (·.email = u.email) = none ∧ (w.insertUser u).2.users = w.users.insert u h := by
  simp only [World.insertUser]
  split
  · rename_i h
    exact .inr ⟨h.1, h.2, rfl⟩
  · exact .inl rfl

/-- The statement gives the user the status. -/
def Marks (id : String) (status : Status) : {β : Type} → Query β → Prop
  | _, .setUserStatus _ userID status' => userID = id ∧ status' = status
  | _, .softDeleteUserTx _ userID _ => userID = id ∧ status = .deleted
  | _, _ => False

/-- A statement leaves the users, changes one, or inserts one with an address that is new. -/
theorem users_cases (cfg : Config) (q : Query β) (w : World) :
    (q.exec cfg w).2.users = w.users ∨
    (∃ id f, ∃ h : ∀ u : User, u.Becomes (f u), (∀ u, (f u).status = u.status ∨ q.Marks id (f u).status) ∧
      (q.exec cfg w).2.users = w.users.update [id] f fun u => (h u).id) ∨
    ∃ u h, q.Registers u ∧ w.users.find (·.email = u.email) = none ∧ (q.exec cfg w).2.users = w.users.insert u h := by
  cases q with
  | upsertUserByEmail newID email now =>
    simp only [exec]
    split
    · exact .inl rfl
    · rcases insertUser_cases w { id := newID, email, emailVerifiedAt := some now } with h | ⟨h, hfree, heq⟩
      · exact .inl h
      · exact .inr (.inr ⟨_, h, rfl, hfree, heq⟩)
  | createUserWithPassword party newID email passwordHash =>
    rcases insertUser_cases w { id := newID, email, passwordHash, registeredBy := some party } with h | ⟨h, hfree, heq⟩
    · exact .inl h
    · exact .inr (.inr ⟨_, h, rfl, hfree, heq⟩)
  | setPasswordHash userID passwordHash now =>
    simp only [exec]
    split
    · exact .inl rfl
    · exact .inr (.inl ⟨_, _, fun _ => .rehashed, fun _ => .inl rfl, rfl⟩)
  | setEmailVerified userID now =>
    refine .inr (.inl ⟨_, _, fun _ => .set, ?_, rfl⟩)
    exact fun _ => .inl rfl
  | setUserStatus actor userID status =>
    simp only [exec]
    split
    · exact .inl rfl
    · exact .inr (.inl ⟨_, _, fun _ => .set, fun _ => .inr ⟨rfl, rfl⟩, rfl⟩)
  | setPlatformAdmin actor userID isAdmin =>
    simp only [exec]
    split
    · exact .inl rfl
    · refine .inr (.inl ⟨_, _, fun _ => .set, ?_, rfl⟩)
      exact fun _ => .inl rfl
  | softDeleteUserTx actor userID now =>
    simp only [exec]
    split
    · exact .inl rfl
    · split
      · exact .inr (.inl ⟨_, _, fun _ => .deleted, fun _ => .inr ⟨rfl, rfl⟩, rfl⟩)
      · exact .inl rfl
  | _ => exact .inl (exec_users Bool.false_ne_true)

/-- Users are active when they are new, and keep their status or are given another. -/
theorem status_exec {id : String} {u' : User} (h : (q.exec cfg w).2.users.get id = some u') :
    w.users.get id = none ∧ u'.status = .active ∨
      ∃ u, w.users.get id = some u ∧ (u'.status = u.status ∨ q.Marks id u'.status) := by
  rcases q.users_cases cfg w with heq | ⟨id', f, hbecomes, hstatus, heq⟩ | ⟨v, hfresh, hregisters, -, heq⟩
  · rw [heq] at h
    exact .inr ⟨u', h, .inl rfl⟩
  · rw [heq, Keyed.get_update] at h
    split at h
    · rename_i hid
      obtain rfl : id = id' := List.mem_singleton.1 hid
      obtain ⟨u, hu, rfl⟩ := Option.map_eq_some_iff.1 h
      exact .inr ⟨u, hu, hstatus u⟩
    · exact .inr ⟨u', h, .inl rfl⟩
  · rw [heq, Keyed.get_insert] at h
    split at h
    · rename_i hid
      obtain rfl : v = u' := Option.some.inj h
      refine .inl ⟨hid ▸ hfresh, ?_⟩
      cases q with
      | upsertUserByEmail | createUserWithPassword => exact congrArg User.status hregisters
      | _ => exact hregisters.elim
    · exact .inr ⟨u', h, .inl rfl⟩

/-- A session is inserted, or nothing happens. -/
theorem createSession_cases (cfg : Config) (w : World) (party : Party) (proof : Proof) (newToken userID : String)
    (passwordConfirmed : Bool) (impersonatedBy : Option Actor) (now : Time) :
    (∃ e, (createSession party proof newToken userID passwordConfirmed impersonatedBy now).exec cfg w = (.error e, w)) ∨
    ∃ u exp, w.users.get userID = some u ∧
      ∃ hfresh : w.sessions.get (cfg.session party proof newToken passwordConfirmed impersonatedBy now u).token = none,
        (createSession party proof newToken userID passwordConfirmed impersonatedBy now).exec cfg w = (.ok exp,
          { w with sessions := w.sessions.insert (cfg.session party proof newToken passwordConfirmed impersonatedBy now u) hfresh }) := by
  simp only [exec]
  split
  · exact .inl ⟨_, rfl⟩
  · rename_i u hu
    split
    · exact .inl ⟨_, rfl⟩
    · split
      · rename_i hfresh
        exact .inr ⟨u, _, hu, hfresh, rfl⟩
      · exact .inl ⟨_, rfl⟩

theorem records_of_error {e : Err} (h : (q.exec cfg w).1 = .error e) : q.records cfg w = [] := by
  rw [records, h]
  rfl

theorem records_of_ok {a : β} (h : (q.exec cfg w).1 = .ok a) : q.records cfg w = q.events cfg w := by
  rw [records, h]
  rfl

theorem mem_records {e : Event} (h : e ∈ q.records cfg w) : (q.exec cfg w).1.toBool ∧ e ∈ q.events cfg w := by
  unfold records at h
  split at h
  · exact ⟨‹_›, h⟩
  · cases h

section effect

variable {r : Except Err β}

@[simp] theorem effect_users : (q.effect cfg w r).users = (q.exec cfg w).2.users := rfl
@[simp] theorem effect_sessions : (q.effect cfg w r).sessions = (q.exec cfg w).2.sessions := rfl
@[simp] theorem effect_links : (q.effect cfg w r).links = (q.exec cfg w).2.links := rfl

theorem effect_history : (q.effect cfg w r).history = (q.answered w r ++ q.records cfg w) ++ w.history := by
  simp [effect, World.record]

end effect

end Query

/-! ## Lookups -/

namespace World

variable {w : World} {token email : String} {now : Time} {p : Principal} {u : User}

theorem verify_some (h : w.verify token now = some p) : ∃ s u, w.sessions.get token = some s ∧
    w.users.get s.userID = some u ∧ s.dead now = false ∧ u.admits s ∧ p = s.principal u := by
  simp only [verify] at h
  split at h
  · cases h
  · rename_i s hs
    split at h
    · cases h
    · rename_i u hu
      split at h
      · rename_i hlive
        cases h
        exact ⟨s, u, hs, hu, hlive.1, hlive.2, rfl⟩
      · cases h

theorem resolve_some (h : w.resolve token now = some p) : ∃ t u, w.pats.get token = some t ∧
    w.users.get t.userID = some u ∧ u.status = .active ∧ p = t.principal u := by
  simp only [resolve] at h
  split at h
  · cases h
  · rename_i t ht
    split at h
    · cases h
    · rename_i u hu
      split at h
      · rename_i hlive
        cases h
        exact ⟨t, u, ht, hu, hlive.2.2, rfl⟩
      · cases h

theorem find_email (h : w.users.find (·.email = email) = some u) : w.users.get u.id = some u ∧ u.email = email := by
  obtain ⟨hmem, hemail⟩ := Keyed.mem_of_find h
  exact ⟨Keyed.get_of_mem hmem, of_decide_eq_true hemail⟩

/-- What a deletion leaves of the users. -/
theorem get_softDelete {userID id : String} : (w.softDelete userID now).users.get id =
    if id = userID then (w.users.get id).map (·.tombstoned now) else w.users.get id := by
  change (w.users.update [userID] (·.tombstoned now) fun _ => rfl).get id = _
  split
  · subst id
    exact Keyed.get_update_self _
  · exact Keyed.get_update_ne _ ‹_›

/-- What a revocation leaves of a session. -/
theorem get_revoke {which : Session → Bool} {s' : Session} (h : (w.revoke which now).sessions.get token = some s') :
    ∃ s, w.sessions.get token = some s ∧ s.Becomes s' ∧ (which s ∧ s'.revokedAt ≠ none ∨ which s = false ∧ s' = s) := by
  rw [revoke, updateSessions, Keyed.get_change] at h
  obtain ⟨s, hs, rfl⟩ := Option.map_eq_some_iff.1 h
  refine ⟨s, hs, ?_⟩
  cases hwhich : which s with
  | true => exact ⟨.revoked, .inl ⟨rfl, by simp⟩⟩
  | false => exact ⟨.rfl, .inr ⟨rfl, rfl⟩⟩

end World

/-! ## Worlds -/

/-- Users and sessions become what they may, and the record is kept. -/
structure World.Grows (w w' : World) : Prop where
  sessions : ∀ {t s}, w.sessions.get t = some s → ∃ s', w'.sessions.get t = some s' ∧ s.Becomes s'
  users : ∀ {id u}, w.users.get id = some u → ∃ u', w'.users.get id = some u' ∧ u.Becomes u'
  history : w.history <:+ w'.history

namespace World.Grows

variable {w w' w'' : World}

theorem mem (h : w.Grows w') {e : Event} (he : e ∈ w.history) : e ∈ w'.history := h.history.subset he

theorem rfl : w.Grows w := ⟨fun h => ⟨_, h, .rfl⟩, fun h => ⟨_, h, .rfl⟩, List.suffix_rfl⟩

theorem trans (h : w.Grows w') (h' : w'.Grows w'') : w.Grows w'' where
  sessions hs := by
    obtain ⟨s', hs', hbecomes⟩ := h.sessions hs
    obtain ⟨s'', hs'', hbecomes'⟩ := h'.sessions hs'
    exact ⟨s'', hs'', hbecomes.trans hbecomes'⟩
  users hu := by
    obtain ⟨u', hu', hbecomes⟩ := h.users hu
    obtain ⟨u'', hu'', hbecomes'⟩ := h'.users hu'
    exact ⟨u'', hu'', hbecomes.trans hbecomes'⟩
  history := h.history.trans h'.history

theorem of_records {cfg : Config} {β : Type} (q : Query β) (w : World) :
    w.Grows ((q.exec cfg w).2.record (q.records cfg w)) where
  sessions {t s} hs := by
    change ∃ s', (q.exec cfg w).2.sessions.get t = some s' ∧ s.Becomes s'
    rcases q.sessions_cases cfg w with h | ⟨p, f, hbecomes, -, h⟩ | ⟨token, now, -, h⟩ | ⟨s', hfresh, -, -, h⟩
    · rw [h]
      exact ⟨s, hs, .rfl⟩
    · rw [h, Keyed.get_change, hs]
      refine ⟨if p s then f s else s, by rfl, ?_⟩
      split
      · exact hbecomes s
      · exact .rfl
    · rw [h, Keyed.get_change, hs]
      refine ⟨if s.due cfg token now then s.renewed cfg now else s, by rfl, ?_⟩
      split
      · exact .renewed
      · exact .rfl
    · have hother : s'.token ≠ t := by
        rintro rfl
        rw [hfresh] at hs
        cases hs
      rw [h, Keyed.get_insert, if_neg hother]
      exact ⟨s, hs, .rfl⟩
  users {id u} hu := by
    change ∃ u', (q.exec cfg w).2.users.get id = some u' ∧ u.Becomes u'
    rcases q.users_cases cfg w with h | ⟨id', f, hbecomes, -, h⟩ | ⟨u', hfresh, -, -, h⟩
    · rw [h]
      exact ⟨u, hu, .rfl⟩
    · rw [h, Keyed.get_update, hu]
      split
      · exact ⟨f u, by rfl, hbecomes u⟩
      · exact ⟨u, by rfl, .rfl⟩
    · have hother : u'.id ≠ id := by
        rintro rfl
        rw [hfresh] at hu
        cases hu
      rw [h, Keyed.get_insert, if_neg hother]
      exact ⟨u, hu, .rfl⟩
  history := by
    refine ⟨q.records cfg w, ?_⟩
    have hexec : (q.exec cfg w).2.history = w.history := Query.exec_history
    rw [← hexec]
    rfl

theorem of_record {es : List Event} : w.Grows (w.record es) :=
  ⟨fun h => ⟨_, h, .rfl⟩, fun h => ⟨_, h, .rfl⟩, List.suffix_append es _⟩

theorem of_effect {cfg : Config} {β : Type} (q : Query β) (w : World) (r : Except Err β) : w.Grows (q.effect cfg w r) := by
  rw [Query.effect, World.record_append]
  exact (of_records q w).trans of_record

theorem tick {t : Time} : w.Grows { w with clock := t } := ⟨fun h => ⟨_, h, .rfl⟩, fun h => ⟨_, h, .rfl⟩, List.suffix_rfl⟩

end World.Grows

/-! ## Runs -/

/-- The condition on a call that a condition on statements makes. -/
def Op.Meets (C : {β : Type} → Query β → World → Prop) : {β : Type} → Op β → World → Prop
  | _, .db q, w => C q w
  | _, _, _ => True

/-- The call is a statement of a kind, or none. -/
def Op.Within (P : {β : Type} → Query β → Prop) : {β : Type} → Op β → Prop
  | _, .db q => P q
  | _, _ => True

section within

open Lib.Proc

variable {P : {β : Type} → Query β → Prop} {α : Type} {q : Query α} {e : Webx.Error}

/-- The procedure keeps to statements of a kind. -/
abbrev Keeps (P : {β : Type} → Query β → Prop) (m : Proc α) : Prop := Issues (fun o => o.Within P) m

theorem keeps_refuse : Keeps P (refuse e : Proc α) := issues_throw

theorem keeps_db (h : P q) : Keeps P (db q) := issues_attempt h

theorem keeps_dbOr {err : Err} (h : P q) : Keeps P (dbOr err e q) := by
  refine issues_bind (issues_ask h) fun r => ?_
  cases r with
  | ok a => exact issues_pure
  | error err' => exact issues_ite (fun _ => issues_throw) fun _ => issues_throw

variable {svc : Service} {party : Party} {newToken : String}

theorem keeps_createSession {proof : Proof} {user : User} {passwordConfirmed registered : Bool}
    (h : ∀ now, P (.createSession party proof newToken user.id passwordConfirmed none now)) :
    Keeps P (Service.createSession party proof newToken user passwordConfirmed registered) :=
  issues_bind (issues_ask trivial) fun now => issues_bind (keeps_db (h now)) fun _ => issues_pure

theorem keeps_loginWithPassword {ipHash rawEmail password : String} (hread : ∀ email, P (.getUserByEmail email))
    (hopen : ∀ generation userID now, P (.createSession party (.password generation) newToken userID true none now)) :
    Keeps P (svc.loginWithPassword party newToken ipHash rawEmail password) := by
  refine issues_ite (fun _ => keeps_refuse) fun _ => issues_bind (issues_attempt trivial) fun limited => ?_
  refine issues_ite (fun _ => keeps_refuse) fun _ => issues_bind (keeps_db (hread _)) fun user => ?_
  cases user with
  | none => exact keeps_refuse
  | some user => exact issues_ite (fun _ => keeps_refuse) fun _ => keeps_createSession (hopen _ _)

end within

variable {svc : Service} {β : Type} {o : Op β} {w w' : World} {r : β} {C : {β : Type} → Query β → World → Prop}

/-- What the effects of statements keep is kept by each call. -/
theorem Step.keeps {I : World → Prop}
    (hI : ∀ {γ : Type} (q : Query γ) (r : Except Err γ), q.Told svc.cfg w r → C q w → I w → I (q.effect svc.cfg w r))
    (hc : o.Meets C w) (h : Step svc o w r w') (hw : I w) : I w' := by
  cases o with
  | db q =>
    rcases h with ⟨htold, h⟩ | ⟨-, h⟩
    · rw [h]
      exact hI q r htold hc hw
    · rw [h]
      exact hw
  | now | exchange => exact h.2 ▸ hw
  | _ => exact (show w' = w from h) ▸ hw

/-- The machine whose statements meet the condition. -/
def machineGiven (svc : Service) (C : {β : Type} → Query β → World → Prop) : Machine Op World :=
  (machine svc).given fun _ _ o w => o.Meets C w

section run

variable {progs : Script Op (Except Err Reply) → Prop} {p₀ p : Pool Op World (Except Err Reply)}
  {past : List (Pool Op World (Except Err Reply))}

/-- An invariant of the effects of statements holds in every state of a run. -/
theorem run_invariant {I : World → Prop} (h : Run (Pool.Next (machineGiven svc C) progs) p₀ past p) (h₀ : I p₀.shared)
    (hI : ∀ {γ : Type} (q : Query γ) (w : World) (r : Except Err γ), q.Told svc.cfg w r → C q w → I w →
      I (q.effect svc.cfg w r))
    (htick : ∀ w t, w.clock ≤ t → I w → I { w with clock := t }) : I p.shared := by
  refine h.invariant (I := fun p => I p.shared) h₀ ?_
  intro p p' hp hstep
  cases hstep with
  | start _ _ | finish _ | crash _ => exact hp
  | exec _ hs => exact hs.2.keeps (fun q r => hI q _ r) hs.1 hp
  | env hs =>
    have hkept := htick _ _ hs.1 hp
    rwa [← hs.2] at hkept

/-- A run of requests that keep to some statements meets that as a condition. -/
theorem run_within {P : {β : Type} → Query β → Prop} (h : Run (Pool.Next (machineGiven svc C) progs) p₀ past p)
    (hprogs : ∀ m, progs m → m.Calls fun o => o.Within P) (hp : p₀.Calls fun o => o.Within P) :
    Run (Pool.Next (machineGiven svc fun q w => P q ∧ C q w) progs) p₀ past p := by
  refine Pool.run_given_mono h hprogs hp fun i {β} o w hP hC => ?_
  cases o with
  | db q => exact ⟨hP, hC⟩
  | _ => trivial

theorem run_grows (h : Run (Pool.Next (machineGiven svc C) progs) p₀ past p) : p₀.shared.Grows p.shared :=
  run_invariant h (I := p₀.shared.Grows) .rfl (fun q w r _ _ hw => hw.trans (.of_effect q w r)) fun _ _ _ hw => hw.trans .tick

end run

/-! ## Runs that are played -/

/-- Statements are executed that the guard lets pass. -/
def Op.passes (guard : {β : Type} → Query β → World → Bool) : {β : Type} → Op β → World → Bool
  | _, .db q, w => guard q w
  | _, _, _ => true

theorem guarded_execs {guard : {β : Type} → Query β → World → Bool} {idp : String → OAuthIdentity}
    (h : ∀ {β : Type} (q : Query β) (w : World), guard q w → C q w) (i : Nat) {β : Type} (o : Op β) (w : World) (r : β)
    (w' : World) (hexec : guarded (fun _ _ o w => o.passes guard w) (execs idp) i o w = some (r, w')) :
    (machineGiven plainService C).step i o w r w' := by
  refine guarded_step (fun i β o w hpass => ?_) execs_step i o w r w' hexec
  cases o with
  | db q => exact h q w hpass
  | _ => trivial

theorem later_legal {M : Machine Op World} (hM : M.env = (machine plainService).env) {progs : Script Op (Except Err Reply) → Prop}
    {d : Nat} : (later d).Forall (Turn.Legal M progs) := by
  intro w
  rw [hM]
  exact ⟨Int.le_add_of_nonneg_right (Int.natCast_nonneg d), rfl⟩

end Ploykit.Accounts

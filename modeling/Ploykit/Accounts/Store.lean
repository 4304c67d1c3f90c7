import Ploykit.Identity.Rules
import Ploykit.Lib.Calendar
import Ploykit.Lib.Keyed

/-!
# The tables of accounts

`identity/adapters/pgrepo`, and what `admin/adapters/pgrepo` changes of users: the tables
`user`, `session`, `personal_access_token`, `oauth_account` and `workspace_oidc_provider`, and of
`member` the owners of workspaces. Times are as the database keeps them. A session's token stands
for its id as well, and a token of the API for its hash.

The rows say for the record by whom and on what they were made, and beside the tables stands
a history of what the statements did, and of how sessions were verified. Nothing reads either.
-/

namespace Ploykit.Accounts

open Lib hiding Time
open Webx
open Identity (Time Duration)

/-! ## Rows -/

inductive Status where
  | active
  | disabled
  | deleted
  deriving DecidableEq, Repr

/-- Who sends a request. -/
abbrev Party := Nat

structure User where
  id : String
  email : String
  passwordHash : String := ""
  status : Status := .active
  isPlatformAdmin : Bool := false
  emailVerifiedAt : Option Time := none
  /-- Without a value it is before all times. -/
  tokensValidAfter : Option Time := none
  /-- How often the password has been replaced, for the record. -/
  generation : Nat := 0
  /-- Who has registered with a password, for the record. -/
  registeredBy : Option Party := none
  deriving DecidableEq, Repr

/-- What a session is opened on. -/
inductive Proof where
  /-- A mailed code, or a third party that has verified the address. -/
  | mailbox
  | devCode
  /-- A password, which had been replaced so often. -/
  | password (generation : Nat)
  /-- The change to the password. -/
  | change (generation : Nat)
  | impersonation
  deriving DecidableEq, Repr

structure Session where
  token : String
  userID : String
  expiresAt : Time
  absoluteExpiresAt : Time
  createdAt : Time
  revokedAt : Option Time := none
  impersonatedBy : Option String := none
  passwordConfirmedAt : Option Time := none
  mfaConfirmedAt : Option Time := none
  /-- For the record, like the next. -/
  openedBy : Party
  proof : Proof
  /-- How often the password of the user had been replaced when the session was opened. -/
  born : Nat
  deriving DecidableEq, Repr

/-- `revoked_at IS NULL AND expires_at > $2 AND absolute_expires_at > $2`, denied -/
def Session.dead (s : Session) (now : Time) : Bool :=
  s.revokedAt.isSome || s.expiresAt ≤ now || s.absoluteExpiresAt ≤ now

/-- `id = $1 AND revoked_at IS NULL AND expires_at > $2` -/
def Session.confirmable (token : String) (now : Time) (s : Session) : Bool :=
  s.token = token ∧ s.revokedAt = none ∧ now < s.expiresAt

/-- `u.status = 'active' AND u.tokens_valid_after < s.created_at` -/
def User.admits (u : User) (s : Session) : Bool := u.status = .active ∧ u.tokensValidAfter.all (· < s.createdAt)

structure PAT where
  token : String
  userID : String
  expiresAt : Option Time := none
  revokedAt : Option Time := none
  scope : Option CredentialScope := none
  deriving DecidableEq, Repr

/-- `github` and `google`, or `oidc_fed:` with the id of a workspace -/
inductive Provider where
  | oauth (name : String)
  | oidcFed (workspaceID : String)
  deriving DecidableEq, Repr

structure OAuthAccount where
  provider : Provider
  subject : String
  userID : String
  deriving DecidableEq, Repr

def OAuthAccount.key (l : OAuthAccount) : Provider × String := (l.provider, l.subject)

structure FedProviderRow where
  workspaceID : String
  issuerURL : String
  clientID : String
  clientSecret : String
  scopes : String
  deriving DecidableEq, Repr

/-! ## Principals -/

inductive Source where
  | session
  | pat
  deriving DecidableEq, Repr

structure Principal extends Webx.Principal where
  source : Source
  /-- The session, or the token of the API. -/
  credential : String
  impersonatedBy : Option String := none
  deriving DecidableEq, Repr

def Session.principal (s : Session) (u : User) : Principal :=
  { userID := u.id, email := u.email, isPlatformAdmin := u.isPlatformAdmin, source := .session, credential := s.token
    impersonatedBy := s.impersonatedBy }

def PAT.principal (t : PAT) (u : User) : Principal :=
  { userID := u.id, email := u.email, isPlatformAdmin := u.isPlatformAdmin, scope := t.scope, source := .pat
    credential := t.token }

/-! ## The database -/

/-- An administrator's request: the user, and the session that it was authenticated by. -/
structure Actor where
  userID : String
  session : String
  deriving DecidableEq, Repr

inductive Event where
  | opened (s : Session)
  /-- The session was looked up, when it had been revoked or had expired. -/
  | rejected (token : String) (now : Time)
  | accepted (token : String) (now : Time)
  /-- A session was confirmed with a password that had been replaced so often. -/
  | confirmed (userID : String) (generation : Nat)
  /-- All sessions were revoked after the password had been replaced so often. -/
  | closed (userID : String) (generation : Nat)
  | linked (l : OAuthAccount)
  | deleted (userID email : String)
  | administered (actor : Actor)
  deriving DecidableEq, Repr

structure World where
  users : Keyed User.id
  sessions : Keyed Session.token
  pats : Keyed PAT.token
  links : Keyed OAuthAccount.key
  providers : Keyed FedProviderRow.workspaceID
  /-- The owners of workspaces, workspace first. -/
  owners : List (String × String)
  clock : Time
  /-- The latest first. -/
  history : List Event

structure Config where
  sessionTTL : Duration
  absoluteTTL : Duration

/-- The row that `INSERT INTO session` makes. -/
def Config.session (cfg : Config) (party : Party) (proof : Proof) (newToken : String) (passwordConfirmed : Bool)
    (impersonatedBy : Option Actor) (now : Time) (u : User) : Session :=
  { token := newToken, userID := u.id, expiresAt := now + cfg.sessionTTL, absoluteExpiresAt := now + cfg.absoluteTTL
    createdAt := now, impersonatedBy := impersonatedBy.map Actor.userID
    passwordConfirmedAt := if passwordConfirmed then some now else none, openedBy := party, proof, born := u.generation }

/-- `token_hash = $1 AND revoked_at IS NULL AND expires_at < $2 + make_interval(secs => $4 / 2.0)` -/
def Session.due (cfg : Config) (token : String) (now : Time) (s : Session) : Bool :=
  s.token = token ∧ s.revokedAt = none ∧ 2 * s.expiresAt < 2 * now + cfg.sessionTTL

def Session.renewed (cfg : Config) (now : Time) (s : Session) : Session :=
  { s with expiresAt := min (now + cfg.sessionTTL) s.absoluteExpiresAt }

inductive Err where
  | api (e : Webx.Error)
  | errNotFound
  | errDuplicate
  | errOAuthLinkConflict
  | other
  deriving DecidableEq, Repr

/-- One statement, or one transaction. What is drawn at random is an argument. -/
inductive Query : Type → Type
  | getUser (id : String) : Query User
  | getUserByEmail (email : String) : Query (Option User)
  | getUserByID (id : String) : Query (Option User)
  | upsertUserByEmail (newID email : String) (now : Time) : Query User
  | createUserWithPassword (party : Party) (newID email passwordHash : String) : Query User
  /-- The answer is how often the password has been replaced, for the record. -/
  | setPasswordHash (userID passwordHash : String) (now : Time) : Query Nat
  | setEmailVerified (userID : String) (now : Time) : Query Unit
  | setUserStatus (actor : Actor) (userID : String) (status : Status) : Query Unit
  | setPlatformAdmin (actor : Actor) (userID : String) (isAdmin : Bool) : Query Unit
  /-- `actor` is the user, or an administrator. -/
  | softDeleteUserTx (actor : Actor) (userID : String) (now : Time) : Query Unit
  | createSession (party : Party) (proof : Proof) (newToken userID : String) (passwordConfirmed : Bool)
      (impersonatedBy : Option Actor) (now : Time) : Query Time
  | verifySession (token : String) (now : Time) : Query (Option Principal)
  | renewSession (token : String) (now : Time) : Query (Option Time)
  /-- `generation` is that of the password, for the record. -/
  | confirmSessionPassword (generation : Nat) (token : String) (now : Time) : Query Unit
  | confirmSessionMFA (token : String) (now : Time) : Query Unit
  | revokeSession (token : String) : Query Unit
  /-- `change` is the number of the password change that the statement belongs to, for the record. -/
  | revokeAllUserSessions (change : Option Nat) (userID : String) : Query Unit
  | revokeUserSessionByID (userID token : String) (now : Time) : Query Unit
  | createPAT (newToken userID : String) (expiresAt : Option Time) (scope : Option CredentialScope) : Query Unit
  | resolvePAT (token : String) (now : Time) : Query (Option Principal)
  | revokePAT (userID token : String) (now : Time) : Query Unit
  | findOAuthAccount (provider : Provider) (subject : String) : Query (Option String)
  | linkOAuthAccount (provider : Provider) (subject userID : String) : Query Unit
  | getFedProvider (workspaceID : String) : Query (Option FedProviderRow)
  | upsertFedProvider (row : FedProviderRow) : Query Unit
  | deleteFedProvider (workspaceID : String) : Query Unit
  /-- What a statement over members makes of one of them. -/
  | setOwner (workspaceID userID : String) (owner : Bool) : Query Unit

namespace World

variable (w : World)

def record (es : List Event) : World := { w with history := es ++ w.history }

theorem record_append (es es' : List Event) : w.record (es ++ es') = (w.record es').record es := by
  simp [record]

def updateUser (id : String) (f : User → User) (hf : ∀ u, (f u).id = u.id := by intro u; rfl) : World :=
  { w with users := w.users.update [id] f hf }

/-- `UPDATE session SET … WHERE …` -/
def updateSessions (p : Session → Bool) (f : Session → Session) (hf : ∀ s, (f s).token = s.token := by intro s; rfl) : World :=
  { w with sessions := w.sessions.change p f hf }

/-- `UPDATE session SET revoked_at = $now WHERE … AND revoked_at IS NULL` -/
def revoke (p : Session → Bool) (now : Time) : World :=
  w.updateSessions p fun s => { s with revokedAt := s.revokedAt.or (some now) }

/-- `UPDATE personal_access_token SET revoked_at = $now WHERE … AND revoked_at IS NULL` -/
def revokePATs (p : PAT → Bool) (now : Time) : World :=
  { w with pats := w.pats.change p (fun t => { t with revokedAt := t.revokedAt.or (some now) }) fun _ => rfl }

/-- The three statements of `SoftDeleteUserTx`. -/
def softDelete (userID : String) (now : Time) : World :=
  let w := w.updateUser userID fun u => { u with
    status := .deleted, email := "deleted+" ++ u.id ++ "@invalid", passwordHash := "", tokensValidAfter := some now }
  let w := w.revokePATs (·.userID = userID) now
  { w with links := w.links.drop (·.userID = userID) }

def insertUser (u : User) : Except Err User × World :=
  if h : w.users.get u.id = none ∧ w.users.find (·.email = u.email) = none then (.ok u, { w with users := w.users.insert u h.1 })
  else (.error .errDuplicate, w)

/-- The principal of a session that is alive, and that its user admits. -/
def verify (token : String) (now : Time) : Option Principal :=
  match w.sessions.get token with
  | none => none
  | some s =>
    match w.users.get s.userID with
    | none => none
    | some u => if s.dead now = false ∧ u.admits s then some (s.principal u) else none

/-- The principal of a token of the API that is alive, if its user is active. -/
def resolve (token : String) (now : Time) : Option Principal :=
  match w.pats.get token with
  | none => none
  | some t =>
    match w.users.get t.userID with
    | none => none
    | some u => if t.revokedAt = none ∧ t.expiresAt.all (now < ·) ∧ u.status = .active then some (t.principal u) else none

end World

namespace Query

variable (cfg : Config)

/-- What the statement answers and leaves. -/
def exec : {β : Type} → Query β → World → Except Err β × World
  | _, .getUser id, w =>
    match w.users.get id with
    | some u => if u.status = .active then (.ok u, w) else (.error .errNotFound, w)
    | none => (.error .errNotFound, w)
  | _, .getUserByEmail email, w => (.ok (w.users.find (·.email = email)), w)
  | _, .getUserByID id, w => (.ok (w.users.get id), w)
  | _, .upsertUserByEmail newID email now, w =>
    match w.users.find (·.email = email) with
    | some u => (.ok u, w)
    | none => w.insertUser { id := newID, email, emailVerifiedAt := some now }
  | _, .createUserWithPassword party newID email passwordHash, w =>
    w.insertUser { id := newID, email, passwordHash, registeredBy := some party }
  | _, .setPasswordHash userID passwordHash now, w =>
    match w.users.get userID with
    | none => (.error .errNotFound, w)
    | some u => (.ok (u.generation + 1), w.updateUser userID fun u =>
        { u with passwordHash, tokensValidAfter := some now, generation := u.generation + 1 })
  | _, .setEmailVerified userID now, w =>
    (.ok (), w.updateUser userID fun u => { u with emailVerifiedAt := u.emailVerifiedAt.or (some now) })
  | _, .setUserStatus _ userID status, w =>
    match w.users.get userID with
    | none => (.error .errNotFound, w)
    | some _ => (.ok (), w.updateUser userID fun u => { u with status })
  | _, .setPlatformAdmin _ userID isPlatformAdmin, w =>
    match w.users.get userID with
    | none => (.error .errNotFound, w)
    | some _ => (.ok (), w.updateUser userID fun u => { u with isPlatformAdmin })
  | _, .softDeleteUserTx _ userID now, w =>
    match w.users.get userID with
    | none => (.error .errNotFound, w)
    | some u =>
      if u.status = .active then (.ok (), w.softDelete userID now) else (.error .errNotFound, w)
  | _, .createSession party proof newToken userID passwordConfirmed impersonatedBy now, w =>
    match w.users.get userID with
    | none => (.error .other, w)
    | some u =>
      let s := cfg.session party proof newToken passwordConfirmed impersonatedBy now u
      if s.absoluteExpiresAt < s.expiresAt then (.error .other, w)
      else if h : w.sessions.get s.token = none then
        (.ok s.expiresAt, { w with sessions := w.sessions.insert s h })
      else (.error .errDuplicate, w)
  | _, .verifySession token now, w => (.ok (w.verify token now), w)
  | _, .renewSession token now, w =>
    (.ok ((w.sessions.find (·.due cfg token now)).map fun s => (s.renewed cfg now).expiresAt),
      w.updateSessions (·.due cfg token now) (·.renewed cfg now))
  | _, .confirmSessionPassword _ token now, w =>
    if (w.sessions.find (·.confirmable token now)).isNone then (.error .errNotFound, w)
    else (.ok (), w.updateSessions (·.confirmable token now) fun s => { s with passwordConfirmedAt := some now })
  | _, .confirmSessionMFA token now, w =>
    if (w.sessions.find (·.confirmable token now)).isNone then (.error .errNotFound, w)
    else (.ok (), w.updateSessions (·.confirmable token now) fun s => { s with mfaConfirmedAt := some now })
  | _, .revokeSession token, w => (.ok (), w.revoke (·.token = token) w.clock)
  | _, .revokeAllUserSessions _ userID, w => (.ok (), w.revoke (·.userID = userID) w.clock)
  | _, .revokeUserSessionByID userID token now, w =>
    if (w.sessions.find fun s => s.token = token ∧ s.userID = userID ∧ s.revokedAt = none).isSome then
      (.ok (), w.revoke (fun s => s.token = token ∧ s.userID = userID) now)
    else (.error .errNotFound, w)
  | _, .createPAT newToken userID expiresAt scope, w =>
    if (w.users.get userID).isNone then (.error .other, w)
    else
      let t : PAT := { token := newToken, userID, expiresAt, scope }
      if h : w.pats.get t.token = none then (.ok (), { w with pats := w.pats.insert t h }) else (.error .errDuplicate, w)
  | _, .resolvePAT token now, w => (.ok (w.resolve token now), w)
  | _, .revokePAT userID token now, w =>
    let live := fun t : PAT => t.token = token ∧ t.userID = userID ∧ t.revokedAt = none
    if (w.pats.find fun t => live t).isSome then (.ok (), w.revokePATs (fun t => live t) now) else (.error .errNotFound, w)
  | _, .findOAuthAccount provider subject, w => (.ok ((w.links.get (provider, subject)).map OAuthAccount.userID), w)
  | _, .linkOAuthAccount provider subject userID, w =>
    if (w.users.get userID).isNone then (.error .other, w)
    else
      let l : OAuthAccount := { provider, subject, userID }
      if h : w.links.get l.key = none then (.ok (), { w with links := w.links.insert l h })
      else if (w.links.get l.key).all (·.userID = userID) then (.ok (), w) else (.error .errOAuthLinkConflict, w)
  | _, .getFedProvider workspaceID, w => (.ok (w.providers.get workspaceID), w)
  | _, .upsertFedProvider row, w =>
    (.ok (), { w with providers :=
      if h : w.providers.get row.workspaceID = none then w.providers.insert row h
      else w.providers.change (·.workspaceID = row.workspaceID) (fun r => { row with workspaceID := r.workspaceID }) fun _ => rfl })
  | _, .deleteFedProvider workspaceID, w =>
    if (w.providers.get workspaceID).isNone then (.error .errNotFound, w)
    else (.ok (), { w with providers := w.providers.erase workspaceID })
  | _, .setOwner workspaceID userID owner, w =>
    (.ok (), { w with owners :=
      if owner then (workspaceID, userID) :: w.owners else w.owners.filter (· ≠ (workspaceID, userID)) })

/-- What is recorded of a statement that succeeds. -/
def events : {β : Type} → Query β → World → List Event
  | _, .createSession party proof newToken userID passwordConfirmed impersonatedBy now, w =>
    (w.users.get userID).toList.map (fun u => .opened (cfg.session party proof newToken passwordConfirmed impersonatedBy now u))
      ++ impersonatedBy.toList.map .administered
  | _, .confirmSessionPassword generation token now, w =>
    (w.sessions.find (·.confirmable token now)).toList.map fun s => .confirmed s.userID generation
  | _, .revokeAllUserSessions generation userID, _ => generation.toList.map (.closed userID)
  | _, .linkOAuthAccount provider subject userID, _ => [.linked ⟨provider, subject, userID⟩]
  | _, .setUserStatus actor _ _, _ => [.administered actor]
  | _, .setPlatformAdmin actor _ _, _ => [.administered actor]
  | _, .softDeleteUserTx actor userID _, w =>
    (w.users.get userID).toList.map (fun u => .deleted userID u.email)
      ++ if actor.userID = userID then [] else [.administered actor]
  | _, _, _ => []

/-- What is recorded of what a session is told. -/
def answered : {β : Type} → Query β → World → Except Err β → List Event
  | _, .verifySession token now, w, .ok none =>
    if (w.sessions.get token).any (·.dead now) then [.rejected token now] else []
  | _, .verifySession token now, _, .ok (some _) => [.accepted token now]
  | _, _, _, _ => []

/-- What is recorded of the statement before anything is answered. -/
def records {β : Type} (q : Query β) (w : World) : List Event := if (q.exec cfg w).1.toBool then q.events cfg w else []

/-- The session is told the answer, or an error. -/
def Told {β : Type} (q : Query β) (w : World) (r : Except Err β) : Prop := r = (q.exec cfg w).1 ∨ ∃ e, r = .error e

/-- The world after the statement, where the session is told `r`. -/
def effect {β : Type} (q : Query β) (w : World) (r : Except Err β) : World :=
  (q.exec cfg w).2.record (q.answered w r ++ q.records cfg w)

/-! ### What a statement leaves as it is -/

def touchesUsers : {β : Type} → Query β → Bool
  | _, .upsertUserByEmail .. => true
  | _, .createUserWithPassword .. => true
  | _, .setPasswordHash .. => true
  | _, .setEmailVerified .. => true
  | _, .setUserStatus .. => true
  | _, .setPlatformAdmin .. => true
  | _, .softDeleteUserTx .. => true
  | _, _ => false

def touchesSessions : {β : Type} → Query β → Bool
  | _, .createSession .. => true
  | _, .renewSession .. => true
  | _, .confirmSessionPassword .. => true
  | _, .confirmSessionMFA .. => true
  | _, .revokeSession .. => true
  | _, .revokeAllUserSessions .. => true
  | _, .revokeUserSessionByID .. => true
  | _, _ => false

section frame

variable {cfg} {β : Type} {q : Query β} {w : World}

attribute [local simp] exec in
theorem exec_users (h : ¬ q.touchesUsers) : (q.exec cfg w).2.users = w.users := by
  cases q with
  | upsertUserByEmail | createUserWithPassword | setPasswordHash | setEmailVerified | setUserStatus | setPlatformAdmin
  | softDeleteUserTx => exact absurd rfl h
  | _ => simp only [exec] <;> (repeat' split) <;> rfl

theorem exec_sessions (h : ¬ q.touchesSessions) : (q.exec cfg w).2.sessions = w.sessions := by
  cases q with
  | createSession | renewSession | confirmSessionPassword | confirmSessionMFA | revokeSession | revokeAllUserSessions
  | revokeUserSessionByID => exact absurd rfl h
  | _ => simp only [exec, World.insertUser] <;> (repeat' split) <;> rfl

@[simp] theorem exec_history : (q.exec cfg w).2.history = w.history := by
  cases q with
  | _ => simp only [exec, World.insertUser] <;> (repeat' split) <;> rfl

@[simp] theorem exec_clock : (q.exec cfg w).2.clock = w.clock := by
  cases q with
  | _ => simp only [exec, World.insertUser] <;> (repeat' split) <;> rfl

end frame

end Query

end Ploykit.Accounts

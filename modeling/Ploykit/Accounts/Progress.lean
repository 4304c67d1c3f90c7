import Ploykit.Accounts.Growth

/-!
# The order of statements

Whoever confirms a session has verified it, whoever revokes the sessions of a user after a change of
password has changed it, and whoever administers has passed the guard. A monitor reads along with the
requests and knows what each has been answered.
-/

namespace Ploykit.Accounts

open Lib hiding Time
open Webx
open Identity (Time Duration normalizeEmail)

/-! ## Progress -/

/-- How a user was looked up. -/
inductive Lookup where
  | byID (id : String)
  | byEmail (email : String)
  deriving DecidableEq, Repr

def Lookup.Finds (u : User) : Lookup → Prop
  | byID id => u.id = id
  | byEmail email => u.email = email

/-- A session that was opened on a change of password. -/
structure Reopened where
  token : String
  userID : String
  generation : Nat
  deriving DecidableEq, Repr

/-- The last answers of each kind. -/
structure Progress where
  caller : Option Principal := none
  /-- Since the caller is known. -/
  row : Option (Lookup × User) := none
  /-- The user whose password was replaced, and how often it had been then. -/
  replaced : Option (String × Nat) := none
  /-- The same, after the sessions have been revoked. -/
  closed : Option (String × Nat) := none
  reopened : Option Reopened := none
  found : Option OAuthAccount := none
  link : Option OAuthAccount := none
  deleted : Option String := none

namespace Progress

variable (γ : Progress)

/-- The administrator has passed the guard. -/
def Admin (actor : Actor) : Prop :=
  ∃ p, γ.caller = some p ∧ p.isPlatformAdmin ∧ p.impersonatedBy = none ∧ p.source = .session ∧
    actor = ⟨p.userID, p.credential⟩

/-- The statement is in order after these answers. -/
def Asks : {β : Type} → Query β → Prop
  | _, .confirmSessionPassword generation token _ => ∃ p u, γ.caller = some p ∧ p.source = .session ∧
      p.credential = token ∧ γ.row = some (.byID p.userID, u) ∧ u.generation = generation
  | _, .revokeAllUserSessions (some generation) userID => γ.replaced = some (userID, generation)
  | _, .createSession _ (.change generation) _ userID _ none _ =>
    γ.replaced = some (userID, generation) ∧ γ.closed = some (userID, generation)
  | _, .createSession _ .impersonation _ userID _ (some actor) _ => γ.Admin actor ∧
      ∃ id u, γ.row = some (.byID id, u) ∧ u.id = userID ∧ u.isPlatformAdmin = false ∧ u.status = .active ∧ actor.userID ≠ id
  | _, .createSession _ .impersonation _ _ _ none _ => False
  | _, .createSession _ _ _ _ _ (some _) _ => False
  | _, .setUserStatus actor userID status => γ.Admin actor ∧ status ≠ .deleted ∧ (status = .disabled → actor.userID ≠ userID)
  | _, .setPlatformAdmin actor userID isAdmin => γ.Admin actor ∧ (isAdmin = false → actor.userID ≠ userID)
  | _, .softDeleteUserTx actor userID _ => actor.userID = userID ∨ γ.Admin actor
  | _, _ => True

/-- What has been answered after one more statement. -/
def told : {β : Type} → Query β → Except Err β → Progress
  | _, .verifySession _ _, .ok p => { γ with caller := p, row := none }
  | _, .resolvePAT _ _, .ok p => { γ with caller := p, row := none }
  | _, .getUser id, .ok u => { γ with row := some (.byID id, u) }
  | _, .getUserByID id, .ok u => { γ with row := u.map fun u => (.byID id, u) }
  | _, .getUserByEmail email, .ok u => { γ with row := u.map fun u => (.byEmail email, u) }
  | _, .upsertUserByEmail _ email _, .ok u => { γ with row := some (.byEmail email, u) }
  | _, .setPasswordHash userID _ _, .ok generation => { γ with replaced := some (userID, generation) }
  | _, .revokeAllUserSessions (some generation) userID, .ok _ => { γ with closed := some (userID, generation) }
  | _, .createSession _ (.change generation) newToken userID _ _ _, .ok _ =>
    { γ with reopened := some ⟨newToken, userID, generation⟩ }
  | _, .findOAuthAccount provider subject, .ok userID => { γ with found := userID.map fun id => ⟨provider, subject, id⟩ }
  | _, .linkOAuthAccount provider subject userID, .ok _ => { γ with link := some ⟨provider, subject, userID⟩ }
  | _, .softDeleteUserTx _ userID _, .ok _ => { γ with deleted := some userID }
  | _, _, _ => γ

/-- The identity was linked to the user before, or has been now, by its address. Either way the address is said to be verified. -/
def Linked (svc : Service) (id : OAuthIdentity) (res : ThirdPartyLinkResult) : Prop := id.emailVerified ∧
  (γ.found = some ⟨id.provider, id.subject, res.userID⟩ ∨
    γ.link = some ⟨id.provider, id.subject, res.userID⟩ ∧
      ∃ u, γ.row = some (.byEmail (normalizeEmail svc.toLower id.email), u) ∧ u.id = res.userID ∧ u.status = .active)

/-- What has been answered accounts for the reply. -/
def Vouches (svc : Service) : Except Err Reply → Prop
  | .ok (.changed userID generation newToken) => γ.closed = some (userID, generation) ∧
      ∀ token, newToken = some token → γ.reopened = some ⟨token, userID, generation⟩
  | .ok (.linked workspaceID id res) => id.provider = .oidcFed workspaceID ∧ γ.Linked svc id res
  | .ok (.deleted userID) => γ.deleted = some userID
  | _ => True

end Progress

/-- A request may start after any other. -/
def monitor : Monitor Op Progress where
  allows γ o := match o with
    | .db q => γ.Asks q
    | _ => True
  next γ o r := match o, r with
    | .db q, r => γ.told q r
    | _, _ => γ
  rests _ := True
  init := {}
  abort γ := γ
  init_rests := trivial
  abort_rests _ := trivial

/-! ## Rules -/

section rules

variable {α β : Type} {γ : Progress}

/-- The procedure asks in order, and returns with `Q`. -/
def Obeys (γ : Progress) (m : Proc α) (Q : Progress → α → Prop) : Prop := Lib.Proc.Obeys monitor (fun _ _ => True) γ m Q

variable {Q R : Progress → α → Prop}

theorem Obeys.mono {m : Proc α} (h : Obeys γ m Q) (hQR : ∀ γ a, Q γ a → R γ a) : Obeys γ m R := Lib.Proc.Obeys.mono h hQR

theorem obeys_refuse {e : Webx.Error} : Obeys γ (refuse e) Q := trivial

theorem obeys_throw {e : Err} : Obeys γ (throw e) Q := trivial

theorem obeys_pure {a : α} (h : Q γ a) : Obeys γ (pure a) Q := h

theorem obeys_bind {m : Proc β} {f : β → Proc α} (h : Obeys γ m fun γ b => Obeys γ (f b) Q) : Obeys γ (m >>= f) Q :=
  Lib.Proc.obeys_bind h

theorem obeys_ite {c : Prop} [Decidable c] {m m' : Proc α} (h : c → Obeys γ m Q) (h' : ¬ c → Obeys γ m' Q) :
    Obeys γ (if c then m else m') Q := Lib.Proc.obeys_ite h h'

theorem obeys_ask {o : Op α} (ho : monitor.allows γ o) (h : ∀ r, Q (monitor.next γ o r) r) :
    Obeys γ (Lib.Proc.ask o) Q := Lib.Proc.obeys_ask ho h

theorem obeys_attempt {o : Op (Except Err α)} (ho : monitor.allows γ o) (h : ∀ a, Q (monitor.next γ o (.ok a)) a) :
    Obeys γ (Lib.Proc.attempt o) Q := Lib.Proc.obeys_attempt ho h fun _ => trivial

theorem obeys_db {q : Query α} (hq : γ.Asks q) (h : ∀ a, Q (γ.told q (.ok a)) a) : Obeys γ (db q) Q :=
  obeys_attempt hq h

theorem obeys_dbOr {err : Err} {refusal : Webx.Error} {q : Query α} (hq : γ.Asks q) (h : ∀ a, Q (γ.told q (.ok a)) a) :
    Obeys γ (dbOr err refusal q) Q := by
  refine obeys_bind (obeys_ask hq fun r => ?_)
  cases r with
  | ok a => exact obeys_pure (h a)
  | error e => exact obeys_ite (fun _ => obeys_refuse) fun _ => obeys_throw

/-- The script of a procedure follows the monitor. -/
theorem Obeys.follows {m : Proc α} (h : Obeys γ m Q) :
    m.run.Follows monitor (Lib.Proc.Ends Q fun _ _ => True) γ := h

end rules

-- else every step of the proofs below would run the procedure
attribute [irreducible] Obeys

/-! ## Services -/

section services

variable {svc : Service} {γ : Progress} {p : Principal} {party : Party} {newID newToken email userID : String}

theorem obeys_signupBlocked : Obeys γ (svc.signupBlocked email) fun γ' _ => γ' = γ := by
  have hsettings : Obeys γ svc.signupSettings fun γ' _ => γ' = γ :=
    obeys_ite (fun _ => obeys_ask trivial fun _ => rfl) fun _ => obeys_pure rfl
  exact obeys_bind (hsettings.mono fun γ' settings h => obeys_pure h)

theorem obeys_createSession {proof : Proof} {user : User} {passwordConfirmed registered : Bool}
    {Q : Progress → LoginResult → Prop}
    (hasks : ∀ now, γ.Asks (.createSession party proof newToken user.id passwordConfirmed none now))
    (hQ : ∀ now exp, Q (γ.told (.createSession party proof newToken user.id passwordConfirmed none now) (.ok exp))
      { token := newToken, exp, user, registered }) :
    Obeys γ (Service.createSession party proof newToken user passwordConfirmed registered) Q :=
  obeys_bind (obeys_ask trivial fun now => obeys_bind (obeys_db (hasks now) fun exp => obeys_pure (hQ now exp)))

theorem obeys_register {rawEmail password displayName : String} :
    Obeys γ (svc.register party newID newToken rawEmail password displayName) fun _ _ => True := by
  refine obeys_ite (fun _ => obeys_refuse) fun _ => obeys_ite (fun _ => obeys_refuse) fun _ => ?_
  refine obeys_ite (fun _ => obeys_refuse) fun _ => obeys_bind (obeys_signupBlocked.mono fun γ' blocked _ => ?_)
  refine obeys_ite (fun _ => obeys_refuse) fun _ => obeys_bind (obeys_attempt trivial fun hash => ?_)
  refine obeys_bind (obeys_dbOr trivial fun user => ?_)
  exact obeys_createSession (fun _ => trivial) fun _ _ => trivial

theorem obeys_enter {proof : Proof} (hproof : proof = .mailbox ∨ proof = .devCode) :
    Obeys γ (svc.enter party proof newID newToken email) fun _ _ => True := by
  have henters : Obeys γ (svc.mayEnter email) fun _ _ => True := by
    refine obeys_bind (obeys_signupBlocked.mono fun γ' blocked _ => obeys_ite (fun _ => obeys_pure trivial) fun _ => ?_)
    exact obeys_bind (obeys_db trivial fun _ => obeys_pure trivial)
  refine obeys_bind (henters.mono fun γ' enters _ => obeys_ite (fun _ => obeys_refuse) fun _ => ?_)
  refine obeys_bind (obeys_db trivial fun existing => obeys_bind (obeys_ask trivial fun now => ?_))
  refine obeys_bind (obeys_db trivial fun user => obeys_ite (fun _ => obeys_refuse) fun _ => ?_)
  refine obeys_createSession (fun _ => ?_) fun _ _ => trivial
  rcases hproof with rfl | rfl <;> trivial

theorem obeys_verifyCode {ipHash rawEmail code : String} :
    Obeys γ (svc.verifyCode party newID newToken ipHash rawEmail code) fun _ _ => True := by
  refine obeys_ite (fun _ => obeys_refuse) fun _ => obeys_ite (fun _ => obeys_refuse) fun _ => ?_
  refine obeys_ite (fun _ => obeys_enter (.inr rfl)) fun _ => ?_
  exact obeys_bind (obeys_attempt trivial fun _ => obeys_enter (.inl rfl))

theorem obeys_loginWithPassword {ipHash rawEmail password : String} :
    Obeys γ (svc.loginWithPassword party newToken ipHash rawEmail password) fun _ _ => True := by
  refine obeys_ite (fun _ => obeys_refuse) fun _ => obeys_bind (obeys_attempt trivial fun limited => ?_)
  refine obeys_ite (fun _ => obeys_refuse) fun _ => obeys_bind (obeys_db trivial fun user => ?_)
  cases user with
  | none => exact obeys_refuse
  | some user =>
    exact obeys_ite (fun _ => obeys_refuse) fun _ => obeys_createSession (fun _ => trivial) fun _ _ => trivial

theorem obeys_confirmPassword {ipHash password : String} (hcaller : γ.caller = some p) (hsource : p.source = .session) :
    Obeys γ (svc.confirmPassword ipHash p password) fun _ _ => True := by
  refine obeys_bind (obeys_db trivial fun user => obeys_bind (obeys_attempt trivial fun limited => ?_))
  refine obeys_ite (fun _ => obeys_refuse) fun _ => obeys_ite (fun _ => obeys_refuse) fun _ => ?_
  refine obeys_bind (obeys_ask trivial fun now => obeys_dbOr ?_ fun _ => trivial)
  exact ⟨p, user, hcaller, hsource, rfl, rfl, rfl⟩

theorem obeys_verifyMFA {code : String} : Obeys γ (Service.verifyMFA p code) fun _ _ => True :=
  obeys_bind (obeys_ask trivial fun _ => obeys_bind (obeys_attempt trivial fun _ => obeys_dbOr trivial fun _ => trivial))

theorem obeys_replacePassword {hash : String} : Obeys γ (Service.replacePassword userID hash) fun γ' generation =>
    γ'.replaced = some (userID, generation) ∧ γ'.closed = some (userID, generation) := by
  refine obeys_bind (obeys_ask trivial fun now => obeys_bind (obeys_db trivial fun generation => ?_))
  exact obeys_bind (obeys_db rfl fun _ => obeys_pure ⟨rfl, rfl⟩)

theorem obeys_changePassword {oldPassword newPassword : String} :
    Obeys γ (svc.changePassword party newToken p oldPassword newPassword) fun γ' r =>
      γ'.closed = some (r.2.user.id, r.1) ∧ γ'.reopened = some ⟨r.2.token, r.2.user.id, r.1⟩ := by
  refine obeys_bind (obeys_db trivial fun user => obeys_ite (fun _ => obeys_refuse) fun _ => ?_)
  refine obeys_ite (fun _ => obeys_refuse) fun _ => obeys_ite (fun _ => obeys_refuse) fun _ => ?_
  refine obeys_bind (obeys_attempt trivial fun hash => obeys_bind (obeys_replacePassword.mono fun γ' generation h => ?_))
  exact obeys_bind (obeys_createSession (fun _ => h) fun _ _ => obeys_pure ⟨h.2, rfl⟩)

theorem obeys_resetPassword {rawEmail token newPassword : String} :
    Obeys γ (svc.resetPassword rawEmail token newPassword) fun γ' r => γ'.closed = some r := by
  refine obeys_ite (fun _ => obeys_refuse) fun _ => obeys_bind (obeys_db trivial fun user => ?_)
  cases user with
  | none => exact obeys_refuse
  | some u =>
    refine obeys_bind (obeys_attempt trivial fun id => obeys_ite (fun _ => obeys_refuse) fun _ => ?_)
    refine obeys_bind (obeys_attempt trivial fun _ => obeys_bind (obeys_attempt trivial fun hash => ?_))
    exact obeys_bind (obeys_replacePassword.mono fun γ' generation h => obeys_pure h.2)

theorem obeys_adminSetPassword {newPassword : String} :
    Obeys γ (Service.adminSetPassword userID newPassword) fun γ' generation => γ'.closed = some (userID, generation) := by
  refine obeys_bind (obeys_dbOr trivial fun _ => obeys_ite (fun _ => obeys_refuse) fun _ => ?_)
  exact obeys_bind (obeys_attempt trivial fun hash => obeys_replacePassword.mono fun γ' generation h => h.2)

theorem obeys_linkOAuthIdentity {id : OAuthIdentity} :
    Obeys γ (svc.linkOAuthIdentity newID id) fun γ' res => γ'.Linked svc id res := by
  refine obeys_ite (fun _ => obeys_refuse) fun _ => obeys_ite (fun _ => obeys_refuse) fun hverified => ?_
  rw [not_not] at hverified
  refine obeys_bind (obeys_db trivial fun uid => ?_)
  cases uid with
  | some uid => exact obeys_bind (obeys_dbOr trivial fun _ => obeys_pure ⟨hverified, .inl rfl⟩)
  | none =>
    refine obeys_bind (obeys_db trivial fun user => ?_)
    cases user with
    | some u =>
      refine obeys_ite (fun _ => obeys_refuse) fun hactive => obeys_bind (obeys_db trivial fun _ => ?_)
      exact obeys_pure ⟨hverified, .inr ⟨rfl, u, rfl, rfl, not_not.1 hactive⟩⟩
    | none =>
      refine obeys_bind (obeys_signupBlocked.mono fun γ' blocked _ => obeys_ite (fun _ => obeys_refuse) fun _ => ?_)
      refine obeys_bind (obeys_ask trivial fun now => obeys_bind (obeys_db trivial fun u => ?_))
      refine obeys_ite (fun _ => obeys_refuse) fun hactive => obeys_bind (obeys_ask trivial fun now' => ?_)
      refine obeys_bind (obeys_db trivial fun _ => obeys_bind (obeys_db trivial fun _ => ?_))
      exact obeys_pure ⟨hverified, .inr ⟨rfl, u, rfl, rfl, not_not.1 hactive⟩⟩

theorem obeys_oauthCallback {name code state : String} {cookie : Option String} :
    Obeys γ (svc.oauthCallback newID name cookie code state) fun _ _ => True := by
  refine obeys_bind (obeys_ask trivial fun available => obeys_ite (fun _ => obeys_refuse) fun _ => ?_)
  refine obeys_ite (fun _ => obeys_refuse) fun _ => obeys_bind (obeys_attempt trivial fun id => ?_)
  exact obeys_linkOAuthIdentity.mono fun _ _ _ => trivial

theorem obeys_fedProvider {workspaceID : String} : Obeys γ (Service.fedProvider workspaceID) fun _ _ => True := by
  refine obeys_bind (obeys_db trivial fun row => ?_)
  cases row with
  | none => exact obeys_refuse
  | some row =>
    refine obeys_bind (obeys_ask trivial fun unsealed => obeys_ite (fun _ => obeys_refuse) fun _ => ?_)
    exact obeys_bind (obeys_ask trivial fun resolved => obeys_ite (fun _ => obeys_refuse) fun _ => obeys_pure trivial)

theorem obeys_fedCallback {cookie : Option FedLoginCookie} {code state : String} :
    Obeys γ (svc.fedCallback newID cookie code state) fun γ' r =>
      r.1.provider = .oidcFed ((cookie.map FedLoginCookie.w).getD "") ∧ γ'.Linked svc r.1 r.2 := by
  cases cookie with
  | none => exact obeys_refuse
  | some fc =>
    refine obeys_ite (fun _ => obeys_refuse) fun _ => obeys_ite (fun _ => obeys_refuse) fun _ => ?_
    refine obeys_bind (obeys_fedProvider.mono fun γ' row _ => obeys_bind (obeys_attempt trivial fun id => ?_))
    exact obeys_bind (obeys_linkOAuthIdentity.mono fun γ'' res h => obeys_pure ⟨rfl, h⟩)

theorem obeys_completeThirdPartyLogin {res : ThirdPartyLinkResult} :
    Obeys γ (Service.completeThirdPartyLogin party newToken res) fun _ _ => True :=
  obeys_bind (obeys_db trivial fun _ => obeys_createSession (fun _ => trivial) fun _ _ => trivial)

theorem obeys_deleteAccount : Obeys γ (Service.deleteAccount p) fun γ' _ => γ'.deleted = some p.userID :=
  obeys_bind (obeys_ask trivial fun _ => obeys_dbOr (.inl rfl) fun _ => rfl)

theorem obeys_revokeSessionByID {sessionID : String} : Obeys γ (Service.revokeSessionByID userID sessionID) fun _ _ => True :=
  obeys_bind (obeys_ask trivial fun _ => obeys_dbOr trivial fun _ => trivial)

theorem obeys_createPAT {name : String} {ttl : Duration} {scope : Option CredentialScope} :
    Obeys γ (Service.createPAT p newToken name ttl scope) fun _ _ => True := by
  refine obeys_ite (fun _ => obeys_refuse) fun _ => obeys_ite (fun _ => ?_) fun _ => obeys_db trivial fun _ => trivial
  exact obeys_bind (obeys_ask trivial fun _ => obeys_db trivial fun _ => trivial)

theorem obeys_revokePAT {patID : String} : Obeys γ (Service.revokePAT userID patID) fun _ _ => True :=
  obeys_bind (obeys_ask trivial fun _ => obeys_dbOr trivial fun _ => trivial)

/-! ### Administration -/

variable {actor : Actor} {Q : Progress → Unit → Prop}

theorem obeys_disableUser (hadmin : γ.Admin ⟨p.userID, p.credential⟩) : Obeys γ (Service.disableUser p userID) fun _ _ => True := by
  refine obeys_ite (fun _ => obeys_refuse) fun hother => obeys_bind (obeys_dbOr ⟨hadmin, ?_, fun _ => hother⟩ fun _ => ?_)
  · intro h
    cases h
  · exact obeys_db trivial fun _ => trivial

theorem obeys_enableUser (hadmin : γ.Admin ⟨p.userID, p.credential⟩) : Obeys γ (Service.enableUser p userID) fun _ _ => True := by
  refine obeys_dbOr ⟨hadmin, ?_, ?_⟩ fun _ => trivial
  · intro h
    cases h
  · intro h
    cases h

theorem obeys_setPlatformAdmin {isAdmin : Bool} (hadmin : γ.Admin ⟨p.userID, p.credential⟩) :
    Obeys γ (Service.setPlatformAdmin p userID isAdmin) fun _ _ => True := by
  refine obeys_ite (fun _ => obeys_refuse) fun hother => obeys_dbOr ⟨hadmin, fun hdemotes heq => ?_⟩ fun _ => trivial
  exact hother ⟨heq, by simp [hdemotes]⟩

theorem obeys_targetUser : Obeys γ (Service.targetUser userID) fun γ' u => γ' = { γ with row := some (.byID userID, u) } := by
  refine obeys_bind (obeys_db trivial fun user => ?_)
  cases user with
  | none => exact obeys_refuse
  | some u => exact obeys_pure rfl

theorem obeys_notAdminTarget {target : User} : Obeys γ (Service.notAdminTarget p target) fun γ' _ => γ' = γ :=
  obeys_ite (fun _ => obeys_refuse) fun _ => obeys_pure rfl

theorem obeys_impersonate (hadmin : γ.Admin ⟨p.userID, p.credential⟩) :
    Obeys γ (Service.impersonate p newToken userID) fun _ _ => True := by
  refine obeys_ite (fun _ => obeys_refuse) fun _ => obeys_ite (fun _ => obeys_refuse) fun hother => ?_
  refine obeys_bind (obeys_targetUser.mono fun γ' target hγ' => ?_)
  subst hγ'
  refine obeys_ite (fun _ => obeys_refuse) fun hrole => obeys_ite (fun _ => obeys_refuse) fun hactive => ?_
  refine obeys_bind (obeys_ask trivial fun now => obeys_bind (obeys_db ⟨hadmin, ?_⟩ fun _ => obeys_pure trivial))
  exact ⟨userID, target, rfl, rfl, by simpa using hrole, not_not.1 hactive, hother⟩

theorem obeys_adminDeleteUser {confirm : String} (hadmin : γ.Admin ⟨p.userID, p.credential⟩) :
    Obeys γ (Service.adminDeleteUser p userID confirm) fun γ' _ => γ'.deleted = some userID := by
  refine obeys_ite (fun _ => obeys_refuse) fun hother => obeys_bind (obeys_targetUser.mono fun γ' u hγ' => ?_)
  subst hγ'
  refine obeys_ite (fun _ => obeys_refuse) fun _ => obeys_ite (fun _ => obeys_refuse) fun _ => ?_
  exact obeys_bind (obeys_ask trivial fun now => obeys_dbOr (.inr hadmin) fun _ => rfl)

/-- What is done to a user that is no other administrator. -/
theorem obeys_onTarget {f : Proc Unit} (hf : ∀ γ, Obeys γ f fun _ _ => True) :
    Obeys γ (do let u ← Service.targetUser userID; Service.notAdminTarget p u; f) fun _ _ => True :=
  obeys_bind (obeys_targetUser.mono fun _ _ _ => obeys_bind (obeys_notAdminTarget.mono fun γ'' _ _ => hf γ''))

theorem obeys_kickUser : Obeys γ (Service.kickUser p userID) fun _ _ => True :=
  obeys_onTarget fun _ => obeys_db trivial fun _ => trivial

theorem obeys_kickSession {sessionID : String} : Obeys γ (Service.kickSession p userID sessionID) fun _ _ => True :=
  obeys_onTarget fun _ => obeys_revokeSessionByID

theorem obeys_revokeUserPAT {patID : String} : Obeys γ (Service.revokeUserPAT p userID patID) fun _ _ => True :=
  obeys_onTarget fun _ => obeys_revokePAT

end services

/-! ## Requests -/

section requests

variable {svc : Service} {γ : Progress} {c : Credential} {p : Option Principal}

theorem obeys_authenticate : Obeys γ (authenticate c) fun γ' p => ∀ p', p = some p' → γ'.caller = some p' := by
  refine obeys_bind (obeys_ask trivial fun now => ?_)
  cases c with
  | absent =>
    refine obeys_pure fun p' h => ?_
    cases h
  | bearer token =>
    refine obeys_bind (obeys_ask trivial fun r => ?_)
    rcases r with e | p
    · exact obeys_refuse
    · cases p with
      | none => exact obeys_refuse
      | some p => exact obeys_pure fun p' h => h
  | session token =>
    refine obeys_bind (obeys_ask trivial fun r => ?_)
    rcases r with e | p
    · exact obeys_refuse
    · cases p with
      | none =>
        refine obeys_pure fun p' h => ?_
        cases h
      | some p => exact obeys_bind (obeys_ask trivial fun _ => obeys_pure fun p' h => h)

theorem obeys_requireAuth : Obeys γ (requireAuth p) fun γ' p' => γ' = γ ∧ p = some p' := by
  cases p with
  | none => exact obeys_refuse
  | some p => exact obeys_pure ⟨rfl, rfl⟩

theorem obeys_requireHuman : Obeys γ (requireHuman p) fun γ' p' => γ' = γ ∧ p = some p' ∧ p'.source = .session := by
  cases p with
  | none => exact obeys_refuse
  | some p => exact obeys_ite (fun _ => obeys_refuse) fun hsource => obeys_pure ⟨rfl, rfl, not_not.1 hsource⟩

theorem obeys_platformAdminGuard (hcaller : ∀ p', p = some p' → γ.caller = some p') :
    Obeys γ (platformAdminGuard p) fun γ' p' => γ' = γ ∧ γ.Admin ⟨p'.userID, p'.credential⟩ := by
  cases p with
  | none => exact obeys_refuse
  | some p =>
    refine obeys_ite (fun _ => obeys_refuse) fun hrole => obeys_ite (fun _ => obeys_refuse) fun himpersonated => ?_
    refine obeys_ite (fun _ => obeys_refuse) fun hsource => obeys_pure ⟨rfl, p, hcaller p rfl, not_not.1 hrole, not_not.1 himpersonated, ?_, rfl⟩
    cases h : p.source with
    | session => rfl
    | pat => exact absurd h hsource

theorem obeys_action (hcaller : ∀ p', p = some p' → γ.caller = some p') (a : Action) :
    Obeys γ (a.exec svc p) fun γ' reply => γ'.Vouches svc (.ok reply) := by
  cases a with
  | meOptional =>
    cases p with
    | none => exact obeys_pure trivial
    | some p => exact obeys_bind (obeys_db trivial fun _ => obeys_pure trivial)
  | logout =>
    refine obeys_bind (obeys_requireAuth.mono fun γ' p' _ => ?_)
    exact obeys_ite (fun _ => obeys_bind (obeys_ask trivial fun _ => obeys_pure trivial)) fun _ => obeys_pure trivial
  | deleteMe =>
    refine obeys_bind (obeys_requireHuman.mono fun γ' p' _ => ?_)
    exact obeys_bind (obeys_deleteAccount.mono fun γ'' _ hdeleted => obeys_pure hdeleted)
  | changePassword party newToken oldPassword newPassword =>
    refine obeys_bind (obeys_requireHuman.mono fun γ' p' _ => ?_)
    refine obeys_bind (obeys_changePassword.mono fun γ'' r h => obeys_pure ⟨h.1, fun token htoken => ?_⟩)
    cases htoken
    exact h.2
  | confirmPassword ipHash password =>
    refine obeys_bind (obeys_requireHuman.mono fun γ' p' h => ?_)
    obtain ⟨rfl, hp, hsource⟩ := h
    exact obeys_bind ((obeys_confirmPassword (hcaller p' hp) hsource).mono fun _ _ _ => obeys_pure trivial)
  | verifyMFA code =>
    refine obeys_bind (obeys_requireHuman.mono fun γ' p' _ => ?_)
    exact obeys_bind (obeys_verifyMFA.mono fun _ _ _ => obeys_pure trivial)
  | revokeAllSessions =>
    refine obeys_bind (obeys_requireHuman.mono fun γ' p' _ => ?_)
    exact obeys_bind (obeys_db trivial fun _ => obeys_pure trivial)
  | revokeSession sessionID =>
    refine obeys_bind (obeys_requireHuman.mono fun γ' p' _ => ?_)
    exact obeys_bind (obeys_revokeSessionByID.mono fun _ _ _ => obeys_pure trivial)
  | createPAT newToken name ttl scope =>
    refine obeys_bind (obeys_requireHuman.mono fun γ' p' _ => ?_)
    exact obeys_bind (obeys_createPAT.mono fun _ _ _ => obeys_pure trivial)
  | revokePAT patID =>
    refine obeys_bind (obeys_requireHuman.mono fun γ' p' _ => ?_)
    exact obeys_bind (obeys_revokePAT.mono fun _ _ _ => obeys_pure trivial)
  | setUserStatus userID status =>
    refine obeys_bind ((obeys_platformAdminGuard hcaller).mono fun γ' p' h => ?_)
    obtain ⟨rfl, hadmin⟩ := h
    refine obeys_ite (fun _ => ?_) fun _ => obeys_ite (fun _ => ?_) fun _ => obeys_refuse
    · exact obeys_bind ((obeys_disableUser hadmin).mono fun _ _ _ => obeys_pure trivial)
    · exact obeys_bind ((obeys_enableUser hadmin).mono fun _ _ _ => obeys_pure trivial)
  | setAdmin userID isAdmin =>
    refine obeys_bind ((obeys_platformAdminGuard hcaller).mono fun γ' p' h => ?_)
    obtain ⟨rfl, hadmin⟩ := h
    exact obeys_bind ((obeys_setPlatformAdmin hadmin).mono fun _ _ _ => obeys_pure trivial)
  | impersonate newToken userID =>
    refine obeys_bind ((obeys_platformAdminGuard hcaller).mono fun γ' p' h => ?_)
    obtain ⟨rfl, hadmin⟩ := h
    exact obeys_bind ((obeys_impersonate hadmin).mono fun _ _ _ => obeys_pure trivial)
  | adminDeleteUser userID confirm =>
    refine obeys_bind ((obeys_platformAdminGuard hcaller).mono fun γ' p' h => ?_)
    obtain ⟨rfl, hadmin⟩ := h
    refine obeys_ite (fun _ => obeys_refuse) fun _ => ?_
    exact obeys_bind ((obeys_adminDeleteUser hadmin).mono fun _ _ hdeleted => obeys_pure hdeleted)
  | kickUser userID =>
    refine obeys_bind ((obeys_platformAdminGuard hcaller).mono fun γ' p' _ => ?_)
    exact obeys_bind (obeys_kickUser.mono fun _ _ _ => obeys_pure trivial)
  | revokeUserSession userID sessionID =>
    refine obeys_bind ((obeys_platformAdminGuard hcaller).mono fun γ' p' _ => ?_)
    exact obeys_bind (obeys_kickSession.mono fun _ _ _ => obeys_pure trivial)
  | revokeUserPAT userID patID =>
    refine obeys_bind ((obeys_platformAdminGuard hcaller).mono fun γ' p' _ => ?_)
    exact obeys_bind (obeys_revokeUserPAT.mono fun _ _ _ => obeys_pure trivial)

theorem obeys_call (c : Call) : Obeys γ (c.exec svc) fun γ' reply => γ'.Vouches svc (.ok reply) := by
  cases c with
  | register => exact obeys_bind (obeys_register.mono fun _ _ _ => obeys_pure trivial)
  | loginWithPassword => exact obeys_bind (obeys_loginWithPassword.mono fun _ _ _ => obeys_pure trivial)
  | verifyCode => exact obeys_bind (obeys_verifyCode.mono fun _ _ _ => obeys_pure trivial)
  | oauthLogin =>
    refine obeys_bind (obeys_oauthCallback.mono fun _ res _ => ?_)
    exact obeys_bind (obeys_completeThirdPartyLogin.mono fun _ _ _ => obeys_pure trivial)
  | fedCallback => exact obeys_bind (obeys_fedCallback.mono fun _ r h => obeys_pure h)
  | fedLogin =>
    refine obeys_bind (obeys_fedCallback.mono fun _ r _ => ?_)
    exact obeys_bind (obeys_completeThirdPartyLogin.mono fun _ _ _ => obeys_pure trivial)
  | resetPassword =>
    refine obeys_bind (obeys_resetPassword.mono fun _ r h => obeys_pure ⟨h, fun token htoken => ?_⟩)
    cases htoken
  | adminSetPassword =>
    refine obeys_bind (obeys_adminSetPassword.mono fun _ generation h => obeys_pure ⟨h, fun token htoken => ?_⟩)
    cases htoken
  | request c a => exact obeys_bind (obeys_authenticate.mono fun γ' p hcaller => obeys_action hcaller a)
  | upsertProvider => exact obeys_bind (obeys_db trivial fun _ => obeys_pure trivial)
  | deleteProvider => exact obeys_bind (obeys_dbOr trivial fun _ => obeys_pure trivial)
  | setOwner => exact obeys_bind (obeys_db trivial fun _ => obeys_pure trivial)

variable {scope : Call → Prop} {m : Script Op (Except Err Reply)}

theorem Program.replies (h : Program svc scope m) (γ : Progress) : m.Follows monitor (fun γ r => γ.Vouches svc r) γ := by
  obtain ⟨c, -, rfl⟩ := h
  have hobeys : Obeys γ (c.exec svc) fun γ' reply => γ'.Vouches svc (.ok reply) := obeys_call c
  refine hobeys.follows.mono fun γ r hr => ?_
  cases r with
  | ok reply => exact hr
  | error e => trivial

theorem Program.accepted (h : Program svc scope m) : monitor.Accepts m :=
  fun γ _ => (h.replies γ).mono fun _ _ _ => trivial

end requests

end Ploykit.Accounts

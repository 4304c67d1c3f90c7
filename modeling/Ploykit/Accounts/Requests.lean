import Ploykit.Accounts.Service

/-!
# Requests

`webx.Authenticate` and the routes of `identity/adapters/http` and `admin/adapters/http`. A request
carries a session, a token of the API or neither, or is one of those that lead to a session.
-/

namespace Ploykit.Accounts

open Lib hiding Time
open Webx
open Identity (Time Duration hour)
open Lib.Proc (ask attempt)

/-! ## Authentication -/

inductive Credential where
  | absent
  | session (token : String)
  | bearer (token : String)
  deriving DecidableEq, Repr

def errUnavailable : Webx.Error := newError 503 "E_UNAVAILABLE" "认证服务暂不可用"

/-- A session is renewed that has been verified, whatever comes of it. -/
def authenticate (c : Credential) : Proc (Option Principal) := do
  let now ← ask .now
  match c with
  | .absent => return none
  | .bearer token =>
    match ← ask (.db (.resolvePAT token now)) with
    | .error _ => refuse errUnavailable
    | .ok none => refuse (newUnauthenticated "invalid token")
    | .ok (some p) => return some p
  | .session token =>
    match ← ask (.db (.verifySession token now)) with
    | .error _ => refuse errUnavailable
    | .ok none => return none
    | .ok (some p) =>
      let _ ← ask (.db (.renewSession token now))
      return some p

/-! ## Guards -/

def requireAuth (p : Option Principal) : Proc Principal :=
  match p with
  | none => refuse (newUnauthenticated "authentication required")
  | some p => return p

def requireHuman (p : Option Principal) : Proc Principal :=
  match p with
  | none => refuse (newUnauthenticated "authentication required")
  | some p => if p.source ≠ .session then refuse (newForbidden "human session required") else return p

def platformAdminGuard (p : Option Principal) : Proc Principal :=
  match p with
  | none => refuse (newUnauthenticated "authentication required")
  | some p =>
    if ¬ p.isPlatformAdmin then refuse (newForbidden "platform admin required")
    else if p.impersonatedBy ≠ none then refuse (newForbidden "admin API is not available to impersonated sessions")
    else if p.source = .pat then
      refuse (newForbidden "personal access tokens are not accepted on the admin API; use a browser session")
    else return p

/-! ## Routes -/

/-- What is answered, as far as it is of interest. -/
inductive Reply where
  | done
  | loggedIn (r : LoginResult)
  /-- The password of the user has been replaced, and with what session. -/
  | changed (userID : String) (generation : Nat) (newToken : Option String)
  | linked (workspaceID : String) (id : OAuthIdentity) (res : ThirdPartyLinkResult)
  | deleted (userID : String)
  deriving DecidableEq, Repr

/-- The requests that a principal makes. -/
inductive Action where
  | meOptional
  | logout
  | deleteMe
  | changePassword (party : Party) (newToken oldPassword newPassword : String)
  | confirmPassword (ipHash password : String)
  | verifyMFA (code : String)
  | revokeAllSessions
  | revokeSession (sessionID : String)
  | createPAT (newToken name : String) (ttl : Duration) (scope : Option CredentialScope)
  | revokePAT (patID : String)
  | setUserStatus (userID status : String)
  | setAdmin (userID : String) (isAdmin : Bool)
  | impersonate (newToken userID : String)
  | adminDeleteUser (userID confirm : String)
  | kickUser (userID : String)
  | revokeUserSession (userID sessionID : String)
  | revokeUserPAT (userID patID : String)
  deriving DecidableEq, Repr

namespace Action

variable (svc : Service)

def exec (p : Option Principal) : Action → Proc Reply
  | meOptional => do
    match p with
    | none => return .done
    | some p =>
      let _ ← db (.getUser p.userID)
      return .done
  | logout => do
    let p ← requireAuth p
    if p.source = .session then
      let _ ← ask (.db (.revokeSession p.credential))
      return .done
    else return .done
  | deleteMe => do
    let p ← requireHuman p
    Service.deleteAccount p
    return .deleted p.userID
  | changePassword party newToken oldPassword newPassword => do
    let p ← requireHuman p
    let (generation, login) ← svc.changePassword party newToken p oldPassword newPassword
    return .changed login.user.id generation (some login.token)
  | confirmPassword ipHash password => do
    let p ← requireHuman p
    svc.confirmPassword ipHash p password
    return .done
  | verifyMFA code => do
    let p ← requireHuman p
    Service.verifyMFA p code
    return .done
  | revokeAllSessions => do
    let p ← requireHuman p
    db (.revokeAllUserSessions none p.userID)
    return .done
  | revokeSession sessionID => do
    let p ← requireHuman p
    Service.revokeSessionByID p.userID sessionID
    return .done
  | createPAT newToken name ttl scope => do
    let p ← requireHuman p
    Service.createPAT p newToken name ttl scope
    return .done
  | revokePAT patID => do
    let p ← requireHuman p
    Service.revokePAT p.userID patID
    return .done
  | setUserStatus userID status => do
    let p ← platformAdminGuard p
    if status = "disabled" then
      Service.disableUser p userID
      return .done
    else if status = "active" then
      Service.enableUser p userID
      return .done
    else refuse (newValidation "status must be active or disabled")
  | setAdmin userID isAdmin => do
    let p ← platformAdminGuard p
    Service.setPlatformAdmin p userID isAdmin
    return .done
  | impersonate newToken userID => do
    let p ← platformAdminGuard p
    Service.impersonate p newToken userID
    return .done
  | adminDeleteUser userID confirm => do
    let p ← platformAdminGuard p
    if confirm = "" then
      refuse (newValidation
        "confirm required: pass ?confirm=<target email> or body \x7b\"confirm\": \"<target email>\"\x7d")
    else
      Service.adminDeleteUser p userID confirm
      return .deleted userID
  | kickUser userID => do
    let p ← platformAdminGuard p
    Service.kickUser p userID
    return .done
  | revokeUserSession userID sessionID => do
    let p ← platformAdminGuard p
    Service.kickSession p userID sessionID
    return .done
  | revokeUserPAT userID patID => do
    let p ← platformAdminGuard p
    Service.revokeUserPAT p userID patID
    return .done

end Action

/-- All that changes the accounts. -/
inductive Call where
  | register (party : Party) (newID newToken rawEmail password displayName : String)
  | loginWithPassword (party : Party) (newToken ipHash rawEmail password : String)
  | verifyCode (party : Party) (newID newToken ipHash rawEmail code : String)
  | oauthLogin (party : Party) (newID newToken providerName : String) (cookie : Option String) (code state : String)
  /-- `FedService.Callback` -/
  | fedCallback (newID : String) (cookie : Option FedLoginCookie) (code state : String)
  | fedLogin (party : Party) (newID newToken : String) (cookie : Option FedLoginCookie) (code state : String)
  | resetPassword (rawEmail token newPassword : String)
  | adminSetPassword (targetUserID newPassword : String)
  | request (c : Credential) (a : Action)
  | upsertProvider (row : FedProviderRow)
  | deleteProvider (workspaceID : String)
  /-- A statement over members that makes or unmakes an owner. -/
  | setOwner (workspaceID userID : String) (owner : Bool)

namespace Call

variable (svc : Service)

def exec : Call → Proc Reply
  | register party newID newToken rawEmail password displayName => do
    let r ← svc.register party newID newToken rawEmail password displayName
    return .loggedIn r
  | loginWithPassword party newToken ipHash rawEmail password => do
    let r ← svc.loginWithPassword party newToken ipHash rawEmail password
    return .loggedIn r
  | verifyCode party newID newToken ipHash rawEmail code => do
    let r ← svc.verifyCode party newID newToken ipHash rawEmail code
    return .loggedIn r
  | oauthLogin party newID newToken providerName cookie code state => do
    let res ← svc.oauthCallback newID providerName cookie code state
    let r ← Service.completeThirdPartyLogin party newToken res
    return .loggedIn r
  | fedCallback newID cookie code state => do
    let (id, res) ← svc.fedCallback newID cookie code state
    return .linked ((cookie.map FedLoginCookie.w).getD "") id res
  | fedLogin party newID newToken cookie code state => do
    let (_, res) ← svc.fedCallback newID cookie code state
    let r ← Service.completeThirdPartyLogin party newToken res
    return .loggedIn r
  | resetPassword rawEmail token newPassword => do
    let (userID, generation) ← svc.resetPassword rawEmail token newPassword
    return .changed userID generation none
  | adminSetPassword targetUserID newPassword => do
    let generation ← Service.adminSetPassword targetUserID newPassword
    return .changed targetUserID generation none
  | request c a => do
    let p ← authenticate c
    a.exec svc p
  | upsertProvider row => do
    db (.upsertFedProvider row)
    return .done
  | deleteProvider workspaceID => do
    dbOr .errNotFound (newNotFound "workspace sso not configured") (.deleteFedProvider workspaceID)
    return .done
  | setOwner workspaceID userID owner => do
    db (.setOwner workspaceID userID owner)
    return .done

end Call

/-- What sessions run, of the calls in scope. -/
def Program (svc : Service) (scope : Call → Prop) (m : Script Op (Except Err Reply)) : Prop :=
  ∃ c : Call, scope c ∧ m = (c.exec svc).run

/-! ## A small world -/

/-- Passwords are stored as they are. -/
def plainService : Service where
  cfg := ⟨hour, 24 * hour⟩
  toLower := id
  verifyPassword password hash := hash ≠ "" ∧ password = hash
  noHash _ := by simp
  allowSignup := true

def emptyWorld : World where
  users := .empty
  sessions := .empty
  pats := .empty
  links := .empty
  providers := .empty
  owners := []
  clock := 0
  history := []

/-- A user with a session. -/
def ann : User := { id := "ann", email := "ann@example.com", passwordHash := "Tr0ub4dor&3" }

def annSession : Session where
  token := "s"
  userID := "ann"
  expiresAt := hour
  absoluteExpiresAt := 24 * hour
  createdAt := 0
  openedBy := 0
  proof := .password 0
  born := 0

def annWorld : World :=
  { emptyWorld with users := ⟨[ann], List.nodup_singleton _⟩, sessions := ⟨[annSession], List.nodup_singleton _⟩ }

/-- An execution of a call, where third parties answer a code with an identity. Codes, links and
second factors are accepted. -/
def World.exec (svc : Service) (idp : String → OAuthIdentity) : {β : Type} → Op β → World → Option (β × World)
  | _, .now, w => some (w.clock, w)
  | _, .hashPassword password, w => some (.ok password, w)
  | _, .signupGate, w => some ((true, []), w)
  | _, .tooManyAttempts _ _, w => some (.ok false, w)
  | _, .acceptCode _ _ _, w => some (.ok (), w)
  | _, .verifyLinkChallenge _ _, w => some (.ok 0, w)
  | _, .consumeChallenge _, w => some (.ok (), w)
  | _, .acceptMFA _ _, w => some (.ok (), w)
  | _, .oauthProvider _, w => some (true, w)
  | _, .exchange name code, w => some (.ok { idp code with provider := .oauth name }, w)
  | _, .unseal _, w => some (true, w)
  | _, .resolve _, w => some (true, w)
  | _, .fedExchange _ code, w => some (.ok (idp code), w)
  | _, .db q, w => some ((q.exec svc.cfg w).1, q.effect svc.cfg w (q.exec svc.cfg w).1)

theorem World.exec_step {svc : Service} {idp : String → OAuthIdentity} {β : Type} (o : Op β) (w : World) (r : β)
    (w' : World) (h : w.exec svc idp o = some (r, w')) : Step svc o w r w' := by
  cases o with
  | db q =>
    cases h
    exact .inl ⟨.inl rfl, rfl⟩
  | now =>
    cases h
    exact ⟨rfl, rfl⟩
  | exchange name code =>
    cases h
    refine ⟨fun id hid => ?_, rfl⟩
    cases hid
    rfl
  | _ =>
    cases h
    rfl

/-- No third party. -/
def noIdP (_ : String) : OAuthIdentity := ⟨.oauth "", "", "", false⟩

abbrev Turns := List (Turn Op World (Except Err Reply))

/-- The session serves the request, for so many calls. -/
def serves (i : Nat) (c : Call) (n : Nat) : Turns := [.start i (c.exec plainService).run, .calls i n]

theorem serves_legal {M : Machine Op World} {scope : Call → Prop} {i : Nat} {c : Call} {n : Nat} (hc : scope c) :
    (serves i c n).Forall (Turn.Legal M (Program plainService scope)) := ⟨⟨c, hc, rfl⟩, trivial⟩

/-- Time passes. -/
def later (d : Nat) : Turns := [.env fun w => { w with clock := w.clock + d }]

def execs (idp : String → OAuthIdentity) (_ : Nat) {β : Type} (o : Op β) (w : World) : Option (β × World) :=
  w.exec plainService idp o

theorem execs_step {idp : String → OAuthIdentity} (i : Nat) {β : Type} (o : Op β) (w : World) (r : β) (w' : World)
    (h : execs idp i o w = some (r, w')) : (machine plainService).step i o w r w' := World.exec_step o w r w' h

end Ploykit.Accounts

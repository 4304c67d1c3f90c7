import Ploykit.Accounts.Store
import Ploykit.Lib.Procedure
import Ploykit.Lib.Schedule

/-!
# Account services

The services of `identity/app` and `admin/app`, call by call, with the guards of the routes
that lead to them. The codes and links that are mailed, and the second factor, are those of
`Ploykit.Identity`: here a request is told whether they are accepted. The hooks, the audit and the
limits of attempts but for their refusal are left out. What is drawn at random is an argument.
-/

namespace Ploykit.Accounts

open Lib hiding Time
open Webx
open Identity (Time Duration normalizeEmail emailOK passwordOK signupAllowed)

/-! ## Calls -/

structure OAuthIdentity where
  provider : Provider
  subject : String
  email : String
  emailVerified : Bool
  deriving DecidableEq, Repr

inductive Op : Type → Type 1
  | now : Op Time
  | hashPassword (password : String) : Op (Except Err String)
  | signupGate : Op (Bool × List String)
  | tooManyAttempts (ipHash email : String) : Op (Except Err Bool)
  /-- The last code that was mailed is compared and consumed. -/
  | acceptCode (ipHash email code : String) : Op (Except Err Unit)
  | verifyLinkChallenge (email token : String) : Op (Except Err Nat)
  | consumeChallenge (id : Nat) : Op (Except Err Unit)
  | acceptMFA (userID code : String) : Op (Except Err Unit)
  /-- The provider is among those that are configured. -/
  | oauthProvider (name : String) : Op Bool
  | exchange (name code : String) : Op (Except Err OAuthIdentity)
  | unseal (secret : String) : Op Bool
  | resolve (row : FedProviderRow) : Op Bool
  | fedExchange (row : FedProviderRow) (code : String) : Op (Except Err OAuthIdentity)
  | db {β : Type} (q : Query β) : Op (Except Err β)

/-- What the services are built with, and the library functions that they use. -/
structure Service where
  cfg : Config
  toLower : String → String
  verifyPassword : String → String → Bool
  /-- A text that is no hash matches no password. -/
  noHash : ∀ password, verifyPassword password "" = false
  allowSignup : Bool := false
  allowedEmails : List String := []
  allowedDomains : List String := []
  /-- A gate that is asked instead. -/
  hasSignupGate : Bool := false
  devCode : String := ""
  production : Bool := false

/-- One call. A statement may fail, and one that fails may have been executed. -/
def Step (svc : Service) : {β : Type} → Op β → World → β → World → Prop
  | _, .now, w, r, w' => r = w.clock ∧ w' = w
  | _, .exchange name _, w, r, w' => (∀ id, r = .ok id → id.provider = .oauth name) ∧ w' = w
  | _, .db q, w, r, w' =>
    q.Told svc.cfg w r ∧ w' = q.effect svc.cfg w r ∨ (∃ e, r = .error e) ∧ w' = w
  | _, _, w, _, w' => w' = w

/-- Meanwhile time passes. -/
def machine (svc : Service) : Machine Op World where
  step _ := Step svc
  abort _ w := w
  env w w' := w.clock ≤ w'.clock ∧ w' = { w with clock := w'.clock }

/-! ## Programs -/

abbrev Proc := Lib.Proc Op Err

open Lib.Proc (ask attempt)

section procs

variable {α : Type}

def db (q : Query α) : Proc α := attempt (.db q)

def refuse (e : Webx.Error) : Proc α := throw (.api e)

/-- An error of the repository that is answered with one of the service. -/
def dbOr (err : Err) (refusal : Webx.Error) (q : Query α) : Proc α := do
  match ← ask (.db q) with
  | .ok a => return a
  | .error e => if e = err then refuse refusal else throw e

end procs

structure LoginResult where
  token : String
  exp : Time
  user : User
  registered : Bool := false
  deriving DecidableEq, Repr

structure ThirdPartyLinkResult where
  userID : String
  email : String
  jitNew : Bool := false
  deriving DecidableEq, Repr

/-- The cookie of a federated login: the state, the verifier and the workspace. -/
structure FedLoginCookie where
  s : String
  v : String
  w : String
  deriving DecidableEq, Repr

namespace Service

variable (svc : Service)

/-! ### Signing up -/

def signupSettings : Proc (Bool × List String) :=
  if svc.hasSignupGate then ask .signupGate else return (svc.allowSignup, svc.allowedDomains)

def signupBlocked (email : String) : Proc Bool := do
  let (allowSignup, domains) ← svc.signupSettings
  return ¬ allowSignup ∧ ¬ signupAllowed svc.toLower email svc.allowedEmails domains

/-- The trimmed name has from 1 to 100 characters. -/
def displayNameOK (raw : String) : Bool :=
  let n := (Strings.trimSpace raw).length
  1 ≤ n ∧ n ≤ 100

def createSession (party : Party) (proof : Proof) (newToken : String) (user : User) (passwordConfirmed registered : Bool) :
    Proc LoginResult := do
  let now ← ask .now
  let exp ← db (.createSession party proof newToken user.id passwordConfirmed none now)
  return { token := newToken, exp, user, registered }

def register (party : Party) (newID newToken rawEmail password displayName : String) : Proc LoginResult := do
  let email := normalizeEmail svc.toLower rawEmail
  if ¬ emailOK svc.toLower email then refuse (newValidation "invalid email")
  else if ¬ passwordOK password then
    refuse (newValidation "password too weak (need 10+ chars, 3 of 4 character kinds)")
  else if ¬ displayNameOK displayName then refuse (newValidation "display_name must be 1-100 characters after trim")
  else
    let blocked ← svc.signupBlocked email
    if blocked then refuse (newForbidden "signup is not open for this email")
    else
      let hash ← attempt (.hashPassword password)
      let user ← dbOr .errDuplicate (newConflict "email already registered")
        (.createUserWithPassword party newID email hash)
      createSession party (.password user.generation) newToken user true true

/-! ### Codes and passwords -/

/-- Where signup is blocked the address has to be known. -/
def mayEnter (email : String) : Proc Bool := do
  let blocked ← svc.signupBlocked email
  if ¬ blocked then return true
  else
    let user ← db (.getUserByEmail email)
    return user.isSome

/-- The user of the address is logged in, and made if there is none. -/
def enter (party : Party) (proof : Proof) (newID newToken email : String) : Proc LoginResult := do
  let enters ← svc.mayEnter email
  if ¬ enters then refuse (newForbidden "signup is not open for this email")
  else
    let existing ← db (.getUserByEmail email)
    let now ← ask .now
    let user ← db (.upsertUserByEmail newID email now)
    if user.status ≠ .active then refuse (newForbidden "account disabled")
    else createSession party proof newToken user false existing.isNone

def verifyCode (party : Party) (newID newToken ipHash rawEmail code : String) : Proc LoginResult := do
  let email := normalizeEmail svc.toLower rawEmail
  if ¬ emailOK svc.toLower email then refuse (newValidation "invalid email")
  else if svc.production ∧ svc.devCode ≠ "" ∧ code = svc.devCode then refuse (newUnauthenticated "invalid code")
  else if svc.devCode ≠ "" ∧ code = svc.devCode then svc.enter party .devCode newID newToken email
  else
    attempt (.acceptCode ipHash email code)
    svc.enter party .mailbox newID newToken email

def loginWithPassword (party : Party) (newToken ipHash rawEmail password : String) : Proc LoginResult := do
  let email := normalizeEmail svc.toLower rawEmail
  if ¬ emailOK svc.toLower email ∨ password = "" then refuse (newValidation "invalid credentials")
  else
    let limited ← attempt (.tooManyAttempts ipHash email)
    if limited then refuse (newRateLimited "too many attempts, retry later")
    else
      match ← db (.getUserByEmail email) with
      | none => refuse (newUnauthenticated "invalid credentials")
      | some user =>
        if user.status ≠ .active ∨ ¬ svc.verifyPassword password user.passwordHash then
          refuse (newUnauthenticated "invalid credentials")
        else createSession party (.password user.generation) newToken user true false

def confirmPassword (ipHash : String) (p : Principal) (password : String) : Proc Unit := do
  let user ← db (.getUser p.userID)
  let limited ← attempt (.tooManyAttempts ipHash user.email)
  if limited then refuse (newRateLimited "too many attempts, retry later")
  else if password = "" ∨ ¬ svc.verifyPassword password user.passwordHash then
    refuse (newUnauthenticated "invalid password")
  else
    let now ← ask .now
    dbOr .errNotFound (newUnauthenticated "session no longer valid")
      (.confirmSessionPassword user.generation p.credential now)

def verifyMFA (p : Principal) (code : String) : Proc Unit := do
  let now ← ask .now
  attempt (.acceptMFA p.userID code)
  dbOr .errNotFound (newUnauthenticated "session no longer valid") (.confirmSessionMFA p.credential now)

/-- The password is replaced, and the sessions of the user are revoked. -/
def replacePassword (userID hash : String) : Proc Nat := do
  let now ← ask .now
  let generation ← db (.setPasswordHash userID hash now)
  db (.revokeAllUserSessions (some generation) userID)
  return generation

def changePassword (party : Party) (newToken : String) (p : Principal) (oldPassword newPassword : String) :
    Proc (Nat × LoginResult) := do
  let user ← db (.getUser p.userID)
  if ¬ svc.verifyPassword oldPassword user.passwordHash then refuse (newUnauthenticated "current password is incorrect")
  else if newPassword = oldPassword then
    refuse (newValidation "new password must differ from the current password")
  else if ¬ passwordOK newPassword then refuse (newValidation "new password too weak")
  else
    let hash ← attempt (.hashPassword newPassword)
    let generation ← replacePassword user.id hash
    let login ← createSession party (.change generation) newToken user true false
    return (generation, login)

def resetPassword (rawEmail token newPassword : String) : Proc (String × Nat) := do
  let email := normalizeEmail svc.toLower rawEmail
  if ¬ emailOK svc.toLower email then refuse (newValidation "invalid email format")
  else
    match ← db (.getUserByEmail email) with
    | none => refuse (newValidation "reset link invalid or expired")
    | some u =>
      let id ← attempt (.verifyLinkChallenge email token)
      if ¬ passwordOK newPassword then
        refuse (newValidation "password too weak (need 10+ chars, 3 of 4 character kinds)")
      else
        attempt (.consumeChallenge id)
        let hash ← attempt (.hashPassword newPassword)
        let generation ← replacePassword u.id hash
        return (u.id, generation)

def adminSetPassword (targetUserID newPassword : String) : Proc Nat := do
  let _ ← dbOr .errNotFound (newNotFound "user not found") (.getUser targetUserID)
  if ¬ passwordOK newPassword then
    refuse (newValidation "password too weak (need 10+ chars, 3 of 4 character kinds)")
  else
    let hash ← attempt (.hashPassword newPassword)
    replacePassword targetUserID hash

/-! ### Third-party logins -/

def linkOAuthIdentity (newID : String) (id : OAuthIdentity) : Proc ThirdPartyLinkResult := do
  let email := normalizeEmail svc.toLower id.email
  if ¬ emailOK svc.toLower email then refuse (newValidation "oauth email invalid")
  else if ¬ id.emailVerified then
    refuse (newForbidden "oauth email not verified; use a verified email or code login")
  else
    match ← db (.findOAuthAccount id.provider id.subject) with
    | some uid =>
      let _ ← dbOr .errNotFound (newForbidden "account disabled") (.getUser uid)
      return { userID := uid, email }
    | none =>
      match ← db (.getUserByEmail email) with
      | some u =>
        if u.status ≠ .active then refuse (newForbidden "account disabled")
        else
          db (.linkOAuthAccount id.provider id.subject u.id)
          return { userID := u.id, email }
      | none =>
        let blocked ← svc.signupBlocked email
        if blocked then refuse (newForbidden "signup is not open for this email")
        else
          let now ← ask .now
          let u ← db (.upsertUserByEmail newID email now)
          if u.status ≠ .active then refuse (newForbidden "account disabled")
          else
            let now ← ask .now
            db (.setEmailVerified u.id now)
            db (.linkOAuthAccount id.provider id.subject u.id)
            return { userID := u.id, email, jitNew := true }

def oauthCallback (newID providerName : String) (cookie : Option String) (code state : String) : Proc ThirdPartyLinkResult := do
  let available ← ask (.oauthProvider providerName)
  if ¬ available then refuse (newError 503 "E_UNAVAILABLE" ("oauth provider not available: " ++ providerName))
  else if cookie.getD "" = "" ∨ state = "" ∨ cookie ≠ some state then
    refuse (newValidation "oauth state mismatch or expired")
  else
    let id ← attempt (.exchange providerName code)
    svc.linkOAuthIdentity newID id

/-- The identity provider of the workspace. -/
def fedProvider (workspaceID : String) : Proc FedProviderRow := do
  match ← db (.getFedProvider workspaceID) with
  | none => refuse (newNotFound "workspace sso not configured")
  | some row =>
    let unsealed ← ask (.unseal row.clientSecret)
    if ¬ unsealed then
      refuse (newError 500 "E_SEAL_FAILED" "client_secret unseal failed (seal key mismatch or corrupted ciphertext)")
    else
      let resolved ← ask (.resolve row)
      if ¬ resolved then refuse (newError 503 "E_UNAVAILABLE" "fed idp unavailable")
      else return row

def fedCallback (newID : String) (cookie : Option FedLoginCookie) (code state : String) :
    Proc (OAuthIdentity × ThirdPartyLinkResult) := do
  match cookie with
  | none => refuse (newValidation "fed state missing or expired")
  | some fc =>
    if fc.s = "" ∨ fc.v = "" ∨ fc.w = "" ∨ fc.s ≠ state then refuse (newValidation "fed state mismatch or expired")
    else if code = "" then refuse (newValidation "authorization code required")
    else
      let row ← fedProvider fc.w
      let id ← attempt (.fedExchange row code)
      let id := { id with provider := .oidcFed fc.w }
      let res ← svc.linkOAuthIdentity newID id
      return (id, res)

def completeThirdPartyLogin (party : Party) (newToken : String) (res : ThirdPartyLinkResult) : Proc LoginResult := do
  let user ← db (.getUser res.userID)
  createSession party .mailbox newToken user false res.jitNew

/-! ### The own account -/

def deleteAccount (p : Principal) : Proc Unit := do
  let now ← ask .now
  dbOr .errNotFound (newNotFound "account not found") (.softDeleteUserTx ⟨p.userID, p.credential⟩ p.userID now)

def revokeSessionByID (userID sessionID : String) : Proc Unit := do
  let now ← ask .now
  dbOr .errNotFound (newNotFound "session not found") (.revokeUserSessionByID userID sessionID now)

def createPAT (p : Principal) (newToken name : String) (ttl : Duration) (scope : Option CredentialScope) : Proc Unit := do
  if name = "" ∨ 64 < name.utf8ByteSize then refuse (newValidation "name required (<=64 chars)")
  else if 0 < ttl then
    let now ← ask .now
    db (.createPAT newToken p.userID (some (now + ttl)) scope)
  else db (.createPAT newToken p.userID none scope)

def revokePAT (userID patID : String) : Proc Unit := do
  let now ← ask .now
  dbOr .errNotFound (newNotFound "token not found") (.revokePAT userID patID now)

/-! ### Administration -/

def disableUser (p : Principal) (userID : String) : Proc Unit := do
  if p.userID = userID then refuse (newValidation "cannot disable yourself")
  else
    dbOr .errNotFound (newNotFound "user not found") (.setUserStatus ⟨p.userID, p.credential⟩ userID .disabled)
    db (.revokeAllUserSessions none userID)

def enableUser (p : Principal) (userID : String) : Proc Unit :=
  dbOr .errNotFound (newNotFound "user not found") (.setUserStatus ⟨p.userID, p.credential⟩ userID .active)

def setPlatformAdmin (p : Principal) (userID : String) (isAdmin : Bool) : Proc Unit := do
  if p.userID = userID ∧ ¬ isAdmin then refuse (newValidation "cannot demote yourself")
  else dbOr .errNotFound (newNotFound "user not found") (.setPlatformAdmin ⟨p.userID, p.credential⟩ userID isAdmin)

def targetUser (userID : String) : Proc User := do
  match ← db (.getUserByID userID) with
  | none => refuse (newNotFound "user not found")
  | some u => return u

/-- Another administrator is no target. -/
def notAdminTarget (p : Principal) (target : User) : Proc Unit :=
  if target.isPlatformAdmin ∧ p.userID ≠ target.id then refuse (newForbidden "cannot target another platform admin")
  else return ()

def impersonate (p : Principal) (newToken targetID : String) : Proc Unit := do
  if p.impersonatedBy ≠ none then
    refuse (newForbidden "impersonated session cannot impersonate (chain prevention)")
  else if p.userID = targetID then refuse (newValidation "cannot impersonate yourself")
  else
    let target ← targetUser targetID
    if target.isPlatformAdmin then refuse (newForbidden "cannot impersonate another platform admin")
    else if target.status ≠ .active then refuse (newForbidden "target user is not active")
    else
      let now ← ask .now
      let _ ← db (.createSession 0 .impersonation newToken target.id false (some ⟨p.userID, p.credential⟩) now)
      return ()

def adminDeleteUser (p : Principal) (userID confirmEmail : String) : Proc Unit := do
  if p.userID = userID then refuse (newValidation "cannot delete yourself")
  else
    let u ← targetUser userID
    if u.isPlatformAdmin then refuse (newForbidden "cannot delete another platform admin")
    else if ¬ Strings.equalFold (Strings.trimSpace confirmEmail) u.email then
      refuse (newValidation "confirm email does not match target user email")
    else
      let now ← ask .now
      dbOr .errNotFound (newNotFound "account not found") (.softDeleteUserTx ⟨p.userID, p.credential⟩ userID now)

def kickUser (p : Principal) (userID : String) : Proc Unit := do
  let u ← targetUser userID
  notAdminTarget p u
  db (.revokeAllUserSessions none userID)

def kickSession (p : Principal) (userID sessionID : String) : Proc Unit := do
  let u ← targetUser userID
  notAdminTarget p u
  revokeSessionByID userID sessionID

def revokeUserPAT (p : Principal) (userID patID : String) : Proc Unit := do
  let u ← targetUser userID
  notAdminTarget p u
  revokePAT userID patID

end Service

end Ploykit.Accounts

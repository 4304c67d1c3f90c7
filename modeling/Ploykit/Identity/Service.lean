import Ploykit.Identity.Store
import Ploykit.Lib.Procedure
import Ploykit.Lib.Schedule

/-!
# Codes and links

`SessionService` and `AccountService` of `identity/app`, as far as they issue and verify
challenges, call by call. The hooks, the audit and the texts of the mails are left out. The
ids and tokens that are drawn for a login are arguments.
-/

namespace Ploykit.Identity

open Lib Webx

/-! ## Calls -/

/-- What a mail brings: the code, or the token of the link. -/
inductive Mail where
  | loginCode (email code : String)
  | passwordReset (email token : String)
  | emailVerification (email token : String)
  deriving DecidableEq, Repr

inductive Op : Type → Type 1
  | now : Op Time
  | issueCode : Op (Except Err String)
  | mintLinkToken : Op (Except Err String)
  | hashPassword (password : String) : Op (Except Err String)
  | signupGate : Op (Bool × List String)
  | hmacEqual (c : Challenge) (secretHash : String) : Op Bool
  | send (m : Mail) : Op (Except Err Unit)
  | repo {β : Type} (q : Query β) : Op (Except Err β)

/-- One call. A statement may fail, and one that fails may have been executed. -/
def Step : {β : Type} → Op β → World → β → World → Prop
  | _, .now, w, r, w' => r = w.clock ∧ w' = w
  | _, .issueCode, w, r, w' => (∀ code, r = .ok code → codeOK code) ∧ w' = w
  | _, .mintLinkToken, w, _, w' => w' = w
  | _, .hashPassword _, w, _, w' => w' = w
  | _, .signupGate, w, _, w' => w' = w
  | _, .hmacEqual c secretHash, w, r, w' => r = decide (c.secretHash = secretHash) ∧ w' = w.record (.guessed c.id r)
  | _, .send _, w, _, w' => w' = w
  | _, .repo q, w, r, w' => q.Answers w r w' ∨ (∃ e, r = .error e) ∧ (w' = w ∨ w' = q.lost w)

/-- Meanwhile time passes, and other services change users, sessions and attempts. -/
def machine : Machine Op World where
  step _ := Step
  abort _ w := w
  env w w' := w.clock ≤ w'.clock ∧ w'.challenges = w.challenges ∧ w'.history = w.history

/-- An execution of a call, where `draw` has the codes and tokens in the order of the challenges. -/
def World.exec (draw : Nat → String) : {β : Type} → Op β → World → Option (β × World)
  | _, .now, w => some (w.clock, w)
  | _, .issueCode, w => if codeOK (draw w.challenges.length) then some (.ok (draw w.challenges.length), w) else none
  | _, .mintLinkToken, w => some (.ok (draw w.challenges.length), w)
  | _, .hashPassword password, w => some (.ok password, w)
  | _, .signupGate, w => some ((true, []), w)
  | _, .hmacEqual c secretHash, w =>
    let right := decide (c.secretHash = secretHash)
    some (right, w.record (.guessed c.id right))
  | _, .send _, w => some (.ok (), w)
  | _, .repo q, w => some (q.exec w)

theorem World.exec_step {draw : Nat → String} {β : Type} (o : Op β) (w : World) (r : β) (w' : World)
    (h : w.exec draw o = some (r, w')) : Step o w r w' := by
  cases o with
  | issueCode =>
    simp only [exec] at h
    split at h
    · rename_i hok
      cases h
      refine ⟨fun code hcode => ?_, rfl⟩
      cases hcode
      exact hok
    · cases h
  | hmacEqual c secretHash =>
    cases h
    exact ⟨rfl, rfl⟩
  | repo q =>
    have heq : q.exec w = (r, w') := Option.some.inj h
    have hanswers := q.exec_answers w
    rw [heq] at hanswers
    exact .inl hanswers
  | now =>
    cases h
    exact ⟨rfl, rfl⟩
  | _ =>
    cases h
    rfl

/-! ## Programs -/

abbrev Proc := Lib.Proc Op Err

open Lib.Proc (ask attempt)

section procs

variable {α β : Type}

def repo (q : Query α) : Proc α := attempt (.repo q)

/-- `_ = s.repo.f(..)` -/
def ignore (q : Query α) : Proc Unit := do
  let _ ← ask (.repo q)
  return ()

def refuse (e : Webx.Error) : Proc α := throw (.api e)

end procs

structure LoginResult where
  token : String
  exp : Time
  user : User
  registered : Bool
  deriving DecidableEq, Repr

/-- What the services are built with, and the library functions that they use: the keyed hash of a
secret and `strings.ToLower`. A universal code is refused in production. -/
structure Service where
  hashSecret : String → String
  toLower : String → String
  allowSignup : Bool := false
  allowedEmails : List String := []
  allowedDomains : List String := []
  /-- A gate that is asked instead. -/
  hasSignupGate : Bool := false
  devCode : String := ""
  production : Bool := false
  maxAttemptsPerIP : Int := 10
  attemptWindow : Duration := 15 * minute
  sessionTTL : Duration
  noDevCode : production → devCode = "" := by decide

namespace Service

variable (svc : Service)

def tooManyAttempts (ipHash email : String) : Proc Bool := do
  let now ← ask .now
  let n ← repo (.countRecentAttempts ipHash email (now - svc.attemptWindow))
  return svc.maxAttemptsPerIP ≤ n

def signupSettings : Proc (Bool × List String) :=
  if svc.hasSignupGate then ask .signupGate else return (svc.allowSignup, svc.allowedDomains)

def signupBlocked (email : String) : Proc Bool := do
  let (allowSignup, domains) ← svc.signupSettings
  return ¬ allowSignup ∧ ¬ signupAllowed svc.toLower email svc.allowedEmails domains

/-- The last code or link was issued less than the cooldown ago. -/
def cooling (latest : Option Challenge) (cooldown : Duration) : Proc Bool :=
  match latest with
  | none => return false
  | some c => do
    let now ← ask .now
    return now - c.createdAt < cooldown

/-- A code or link is issued and sent, unless the last one is too recent. -/
def issue (email : String) (kind : Kind) (cooldown : Duration) (tooSoon : String) (draw : Op (Except Err String))
    (ttl : Duration) (mail : String → Mail) : Proc Unit := do
  let latest ← repo (.latestPendingChallenge email kind)
  let wait ← cooling latest cooldown
  if wait then refuse (newRateLimited tooSoon)
  else
    let secret ← attempt draw
    let now ← ask .now
    repo (.createChallenge email kind (svc.hashSecret secret) (now + ttl))
    attempt (.send (mail secret))

/-! ### Login codes -/

def sendCode (ipHash rawEmail : String) : Proc Unit := do
  let email := normalizeEmail svc.toLower rawEmail
  if ¬ emailOK svc.toLower email then refuse (newValidation "invalid email")
  else
    let limited ← svc.tooManyAttempts ipHash email
    if limited then refuse (newRateLimited "too many attempts, retry later")
    else
      svc.issue email .loginCode resendCooldown "please wait before requesting another code" .issueCode codeTTL
        (.loginCode email)

/-- The code is compared with the last challenge, which it consumes. -/
def acceptCode (ipHash email code : String) : Proc Challenge := do
  if ¬ codeOK code then refuse (newValidation "invalid code format")
  else
    let ch ← repo (.latestPendingChallenge email .loginCode)
    let now ← ask .now
    match ch with
    | none => refuse (newUnauthenticated "code expired or not found")
    | some c =>
      if c.expiresAt < now then refuse (newUnauthenticated "code expired or not found")
      else if codeMaxTries ≤ c.attempts then refuse (newUnauthenticated "too many attempts")
      else
        let right ← ask (.hmacEqual c (svc.hashSecret code))
        if ¬ right then
          ignore (.incChallengeAttempts c.id)
          ignore (.recordAttempt ipHash email false now)
          refuse (newUnauthenticated "code mismatch")
        else
          repo (.consumeChallenge c.id)
          return c

/-- Where signup is blocked the address has to be known. -/
def mayEnter (email : String) : Proc Bool := do
  let blocked ← svc.signupBlocked email
  if ¬ blocked then return true
  else
    let user ← repo (.getUserByEmail email)
    return user.isSome

/-- The user of the address is logged in, and made if there is none. -/
def login (ipHash newID newToken email : String) (through : Option Nat) : Proc LoginResult := do
  let enters ← svc.mayEnter email
  if ¬ enters then refuse (newForbidden "signup is not open for this email")
  else
    let existing ← repo (.getUserByEmail email)
    let now ← ask .now
    let user ← repo (.upsertUserByEmail newID email now)
    if user.status ≠ "active" then refuse (newForbidden "account disabled")
    else
      let now ← ask .now
      let exp := now + svc.sessionTTL
      let token ← repo (.createSession through newToken user.id now exp)
      let now ← ask .now
      ignore (.recordAttempt ipHash email true now)
      return { token, exp, user, registered := existing.isNone }

def verifyCode (ipHash newID newToken rawEmail code : String) : Proc LoginResult := do
  let email := normalizeEmail svc.toLower rawEmail
  if ¬ emailOK svc.toLower email then refuse (newValidation "invalid email")
  else if svc.production ∧ svc.devCode ≠ "" ∧ code = svc.devCode then refuse (newUnauthenticated "invalid code")
  else if svc.devCode ≠ "" ∧ code = svc.devCode then svc.login ipHash newID newToken email none
  else
    let c ← svc.acceptCode ipHash email code
    svc.login ipHash newID newToken email (some c.id)

/-! ### Links -/

def issueLink (email : String) (kind : Kind) (ttl : Duration) (mail : String → Mail) : Proc Unit :=
  svc.issue email kind linkCooldown "too many requests, retry later" .mintLinkToken ttl mail

def verifyLinkChallenge (email : String) (kind : Kind) (token : String) : Proc Challenge := do
  let ch ← repo (.latestPendingChallenge email kind)
  match ch with
  | none => refuse (newValidation "link invalid or expired")
  | some c =>
    if codeMaxTries ≤ c.attempts then refuse (newValidation "too many attempts, request a new code")
    else
      let now ← ask .now
      if c.expiresAt < now then refuse (newValidation "link invalid or expired")
      else
        let right ← ask (.hmacEqual c (svc.hashSecret token))
        if ¬ right then
          ignore (.incChallengeAttempts c.id)
          refuse (newValidation "link invalid or expired")
        else return c

def requestPasswordReset (rawEmail : String) : Proc Unit := do
  let email := normalizeEmail svc.toLower rawEmail
  if ¬ emailOK svc.toLower email then refuse (newValidation "invalid email format")
  else
    match ← repo (.getUserByEmail email) with
    | none => return ()
    | some _ => svc.issueLink email .resetLink resetLinkTTL (.passwordReset email)

def resetPassword (rawEmail token newPassword : String) : Proc Unit := do
  let email := normalizeEmail svc.toLower rawEmail
  if ¬ emailOK svc.toLower email then refuse (newValidation "invalid email format")
  else
    match ← repo (.getUserByEmail email) with
    | none => refuse (newValidation "reset link invalid or expired")
    | some u =>
      let c ← svc.verifyLinkChallenge email .resetLink token
      if ¬ passwordOK newPassword then
        refuse (newValidation "password too weak (need 10+ chars, 3 of 4 character kinds)")
      else
        repo (.consumeChallenge c.id)
        let hash ← attempt (.hashPassword newPassword)
        repo (.setPasswordHash u.id hash)
        repo (.revokeAllUserSessions u.id)

/-- `webx.NewNotFound`, if that is what the lookup says -/
def getUserOr (id : String) (notFound : Webx.Error) : Proc User := do
  match ← ask (.repo (.getUser id)) with
  | .ok u => return u
  | .error e => if e = .errNotFound then refuse notFound else throw e

def resetPasswordFor (targetUserID : String) : Proc Unit := do
  let u ← getUserOr targetUserID (newNotFound "user not found")
  svc.requestPasswordReset u.email

def sendVerification (p : Option Principal) : Proc Unit :=
  match p with
  | none => refuse (newUnauthenticated "authentication required")
  | some p => do
    let u ← repo (.getUser p.userID)
    if u.emailVerifiedAt ≠ none then refuse (newConflict "email already verified")
    else svc.issueLink u.email .verifyLink verifyLinkTTL (.emailVerification u.email)

def resendVerificationFor (email : String) : Proc Unit := do
  match ← repo (.getUserByEmail email) with
  | none => refuse (newNotFound "user not found")
  | some u =>
    if u.emailVerifiedAt ≠ none then refuse (newConflict "email already verified")
    else svc.issueLink email .verifyLink verifyLinkTTL (.emailVerification email)

def verifyEmail (rawEmail token : String) : Proc Unit := do
  let email := normalizeEmail svc.toLower rawEmail
  if ¬ emailOK svc.toLower email then refuse (newValidation "invalid email format")
  else
    match ← repo (.getUserByEmail email) with
    | none => refuse (newValidation "verification link invalid or expired")
    | some u =>
      let c ← svc.verifyLinkChallenge email .verifyLink token
      repo (.consumeChallenge c.id)
      let now ← ask .now
      repo (.setEmailVerified u.id now)

end Service

/-! ## Requests -/

inductive Call where
  | sendCode (ipHash rawEmail : String)
  | verifyCode (ipHash newID newToken rawEmail code : String)
  | requestPasswordReset (rawEmail : String)
  | resetPassword (rawEmail token newPassword : String)
  | resetPasswordFor (targetUserID : String)
  | sendVerification (p : Option Principal)
  | resendVerificationFor (email : String)
  | verifyEmail (rawEmail token : String)
  deriving DecidableEq, Repr

namespace Call

def exec (svc : Service) : Call → Proc Unit
  | sendCode ipHash rawEmail => svc.sendCode ipHash rawEmail
  | verifyCode ipHash newID newToken rawEmail code => do
    let _ ← svc.verifyCode ipHash newID newToken rawEmail code
    return ()
  | requestPasswordReset rawEmail => svc.requestPasswordReset rawEmail
  | resetPassword rawEmail token newPassword => svc.resetPassword rawEmail token newPassword
  | resetPasswordFor targetUserID => svc.resetPasswordFor targetUserID
  | sendVerification p => svc.sendVerification p
  | resendVerificationFor email => svc.resendVerificationFor email
  | verifyEmail rawEmail token => svc.verifyEmail rawEmail token

end Call

/-- What sessions run. -/
def Program (svc : Service) (m : Script Op (Except Err Unit)) : Prop := ∃ c : Call, m = (c.exec svc).run

/-! ### A small world -/

/-- Secrets are stored as they are. -/
def plainService : Service where
  hashSecret := id
  toLower := id
  sessionTTL := hour

def emptyWorld : World where
  users := []
  challenges := []
  attempts := []
  sessions := []
  clock := 0
  history := []

abbrev Turns := List (Turn Op World (Except Err Unit))

/-- The session serves the request, for so many calls. -/
def serves (i : Nat) (c : Call) (n : Nat) : Turns := [.start i (c.exec plainService).run, .calls i n]

theorem serves_legal {M : Machine Op World} (i : Nat) (c : Call) (n : Nat) :
    (serves i c n).Forall (Turn.Legal M (Program plainService)) := ⟨⟨c, rfl⟩, trivial⟩

/-- The first codes and tokens that are drawn. -/
def drawn (n : Nat) : String := ["111111", "222222"].getD n "333333"

def execs (_ : Nat) {β : Type} (o : Op β) (w : World) : Option (β × World) := w.exec drawn o

theorem execs_step (i : Nat) {β : Type} (o : Op β) (w : World) (r : β) (w' : World) (h : execs i o w = some (r, w')) :
    machine.step i o w r w' := World.exec_step o w r w' h

end Ploykit.Identity

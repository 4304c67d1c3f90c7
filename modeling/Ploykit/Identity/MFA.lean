import Ploykit.Identity.Rules
import Ploykit.Lib.Procedure
import Ploykit.Lib.Schedule

/-!
# Two factors

`MFAService` of `identity/app` over `identity/adapters/pgrepo`, for one user, call by call.
Calls of the repository fail as long as a fault lasts, before or after they have been
executed. The audit and the hooks are left out, and so is the URI of an enrollment. The
random bytes of secrets and codes do not fail.

What a request has done is kept beside the world, and so is what has become of the
enrollments that were confirmed. Nothing reads it.
-/

namespace Ploykit.Identity.MFA

open Lib Webx
open Lib.Proc (ask attempt)

/-! ## The world -/

/-- Calls fail before they are executed, or their answers are lost. -/
inductive Fault where
  | before
  | after
  deriving DecidableEq, Repr

/-- The row of `user_mfa`, with the number of rows stored before it. -/
structure Enrollment where
  number : Nat
  secretSealed : String
  confirmedAt : Option Time := none
  deriving DecidableEq, Repr

/-- A row of `user_mfa_backup_code`, with the enrollment that was confirmed when it was stored. -/
structure BackupCode where
  codeHash : String
  consumedAt : Option Time := none
  enrollment : Option Nat
  deriving DecidableEq, Repr

structure Session where
  id : String
  expiresAt : Time
  revokedAt : Option Time := none
  mfaConfirmedAt : Option Time := none
  deriving DecidableEq, Repr

inductive Request where
  | startEnrollment
  | enable
  | disable
  | verifyMFA
  deriving DecidableEq, Repr

inductive Event where
  /-- An enrollment that was confirmed is removed or replaced, or codes of it that are not used. -/
  | removed (by_ : Request)
  /-- A request has returned an error, after it has confirmed an enrollment, stored or used codes, or
  removed a confirmed enrollment. -/
  | failed (by_ : Request) (changed : Bool)
  deriving DecidableEq, Repr

/-- What a session has done for its request. -/
structure Progress where
  request : Request := .startEnrollment
  /-- The enrollment that it has confirmed, until it stores the codes. -/
  confirmed : Option Nat := none
  changed : Bool := false

structure World where
  enrollment : Option Enrollment
  /-- The enrollments that have been started. -/
  enrollments : Nat
  codes : List BackupCode
  sessions : List Session
  clock : Time
  fault : Option Fault
  progress : Nat → Progress
  history : List Event

namespace World

variable (w : World)

/-- The enrollment that is confirmed. -/
def confirmed : Option Nat := (w.enrollment.filter fun e => e.confirmedAt.isSome).map Enrollment.number

def record (e : Event) : World := { w with history := e :: w.history }

def recordIf (c : Bool) (e : Event) : World := if c then w.record e else w

def note (i : Nat) (f : Progress → Progress) : World :=
  { w with progress := Function.update w.progress i (f (w.progress i)) }

theorem note_self (i : Nat) (f : Progress → Progress) : (w.note i f).progress i = f (w.progress i) := Function.update_self ..

theorem note_ne {i j : Nat} (h : j ≠ i) (f : Progress → Progress) : (w.note i f).progress j = w.progress j :=
  Function.update_of_ne h ..

def useCode (codeHash : String) (now : Time) : World :=
  { w with codes := w.codes.map fun c =>
      if c.codeHash = codeHash ∧ c.consumedAt = none then { c with consumedAt := some now } else c }

/-- Unused codes of the confirmed enrollment are stored. -/
def hasCodes : Bool := w.codes.any fun c => c.consumedAt = none ∧ c.enrollment.isSome ∧ c.enrollment = w.confirmed

end World

/-! ## Methods of the repository -/

inductive Err where
  | api (e : Webx.Error)
  | errMFANotEnrolled
  | errMFAAlreadyEnabled
  | errMFASealUnavailable
  | errNotFound
  | other
  deriving DecidableEq, Repr

inductive Query : Type → Type
  | getMFA : Query (Option (String × Option Time))
  | upsertPendingMFA (secretSealed : String) : Query Unit
  | confirmMFA (now : Time) : Query Unit
  | deleteMFA : Query Unit
  | replaceBackupCodes (codeHashes : List String) : Query Unit
  | consumeBackupCode (codeHash : String) (now : Time) : Query Bool
  | confirmSessionMFA (sessionID : String) (now : Time) : Query Unit
  | revokeAllUserSessions : Query Unit
  | recordAttempt (now : Time) : Query Unit

namespace Query

/-- What the statement answers session `i`, and what it leaves. The hashes of codes are unique. -/
def exec (i : Nat) : {β : Type} → Query β → World → Except Err β × World
  | _, .getMFA, w => (.ok (w.enrollment.map fun e => (e.secretSealed, e.confirmedAt)), w)
  | _, .upsertPendingMFA secretSealed, w =>
    (.ok (), { w with
      enrollment := some { number := w.enrollments, secretSealed }
      enrollments := w.enrollments + 1 }.recordIf w.confirmed.isSome (.removed (w.progress i).request))
  | _, .confirmMFA now, w =>
    match w.enrollment.filter fun e => e.confirmedAt = none with
    | none => (.error .errNotFound, w)
    | some e =>
      (.ok (), { w with enrollment := some { e with confirmedAt := some now } }.note i fun p =>
        { p with confirmed := some e.number, changed := true })
  | _, .deleteMFA, w =>
    (.ok (), ({ w with enrollment := none }.recordIf w.confirmed.isSome (.removed (w.progress i).request)).note i fun p =>
      { p with changed := p.changed || w.confirmed.isSome })
  | _, .replaceBackupCodes codeHashes, w =>
    (.ok (), ({ w with codes := codeHashes.map fun codeHash => { codeHash, enrollment := (w.progress i).confirmed } }.recordIf
      w.hasCodes (.removed (w.progress i).request)).note i fun p => { p with confirmed := none, changed := true })
  | _, .consumeBackupCode codeHash now, w =>
    if w.codes.any fun c => c.codeHash = codeHash ∧ c.consumedAt = none then
      (.ok true, (w.useCode codeHash now).note i fun p => { p with changed := true })
    else (.ok false, w)
  | _, .confirmSessionMFA sessionID now, w =>
    if w.sessions.any fun s => s.id = sessionID ∧ s.revokedAt = none ∧ now < s.expiresAt then
      (.ok (), { w with sessions := w.sessions.map fun s =>
        if s.id = sessionID then { s with mfaConfirmedAt := some now } else s })
    else (.error .errNotFound, w)
  | _, .revokeAllUserSessions, w =>
    (.ok (), { w with sessions := w.sessions.map fun s => { s with revokedAt := s.revokedAt.or (some w.clock) } })
  | _, .recordAttempt _, w => (.ok (), w)

end Query

/-! ## Calls -/

inductive Op : Type → Type 1
  /-- A request begins, for the record. -/
  | begin (r : Request) : Op Unit
  /-- It has returned, for the record. -/
  | returned (r : Request) (ok : Bool) : Op Unit
  | now : Op Time
  | tooManyAttempts : Op (Except Err Bool)
  | generateTOTPSecret : Op String
  | generateBackupCodes : Op (List String)
  | seal (plain : String) : Op (Except Err String)
  | unseal (stored : String) : Op (Except Err String)
  | repo {β : Type} (q : Query β) : Op (Except Err β)

/-- One call of session `i`. -/
def Step (i : Nat) : {β : Type} → Op β → World → β → World → Prop
  | _, .begin r, w, _, w' => w' = w.note i fun _ => { request := r }
  | _, .returned r ok, w, _, w' => w' = w.recordIf (¬ ok) (.failed r (w.progress i).changed)
  | _, .now, w, r, w' => r = w.clock ∧ w' = w
  | _, .tooManyAttempts, w, _, w' => w' = w
  | _, .generateTOTPSecret, w, _, w' => w' = w
  | _, .generateBackupCodes, w, _, w' => w' = w
  | _, .seal _, w, _, w' => w' = w
  | _, .unseal _, w, _, w' => w' = w
  | _, .repo q, w, r, w' =>
    match w.fault with
    | none => (r, w') = q.exec i w
    | some .before => (∃ e, r = .error e) ∧ w' = w
    | some .after => (∃ e, r = .error e) ∧ w' = (q.exec i w).2

/-- Meanwhile time passes, faults come and go, and the sessions of the user change. -/
def machine : Machine Op World where
  step := Step
  abort _ w := w
  env w w' := ∃ clock fault sessions, w.clock ≤ clock ∧ w' = { w with clock := clock, fault := fault, sessions := sessions }

/-- An execution of a call, where the codes that are generated are these. -/
def World.exec (codes : List String) (i : Nat) : {β : Type} → Op β → World → Option (β × World)
  | _, .begin r, w => some ((), w.note i fun _ => { request := r })
  | _, .returned r ok, w => some ((), w.recordIf (¬ ok) (.failed r (w.progress i).changed))
  | _, .now, w => some (w.clock, w)
  | _, .tooManyAttempts, w => some (.ok false, w)
  | _, .generateTOTPSecret, w => some ("secret", w)
  | _, .generateBackupCodes, w => some (codes, w)
  | _, .seal plain, w => some (.ok plain, w)
  | _, .unseal stored, w => some (.ok stored, w)
  | _, .repo q, w =>
    match w.fault with
    | none => some (q.exec i w)
    | some .before => some (.error .other, w)
    | some .after => some (.error .other, (q.exec i w).2)

theorem World.exec_step (codes : List String) (i : Nat) {β : Type} (o : Op β) (w : World) (r : β) (w' : World)
    (h : w.exec codes i o = some (r, w')) : Step i o w r w' := by
  cases o with
  | now =>
    cases h
    exact ⟨rfl, rfl⟩
  | repo q =>
    simp only [exec] at h
    simp only [Step]
    split at h
    · exact (Option.some.inj h).symm
    · cases h
      exact ⟨⟨_, rfl⟩, rfl⟩
    · cases h
      exact ⟨⟨_, rfl⟩, rfl⟩
  | _ =>
    cases h
    rfl

/-! ## Programs -/

abbrev Proc := Lib.Proc Op Err

section procs

variable {α : Type}

def repo (q : Query α) : Proc α := attempt (.repo q)

def refuse (e : Webx.Error) : Proc α := throw (.api e)

end procs

/-- What the service is built with, and the library functions that it uses: the code of a secret at a
time step, `strings.ToUpper`, and the hash of backup codes. -/
structure Service where
  hasSecrets : Bool := true
  totpAt : String → Int → String
  toUpper : String → String
  sha256Hex : String → String

namespace Service

variable (svc : Service)

def totpStep : Duration := 30 * second

/-- The code is that of a time step next to the one of `now`. -/
def verifyTOTP (secret code : String) (now : Time) : Bool :=
  code.utf8ByteSize = 6 ∧ [-1, 0, 1].any fun drift : Int => svc.totpAt secret (now / totpStep + drift) = code

def hashBackupCode (input : String) : String :=
  svc.sha256Hex (svc.toUpper (String.ofList ((Strings.trimSpace input).toList.filter fun r => r ∉ [' ', '-', '\t'])))

def unsealSecret (sealed_ : String) : Proc String :=
  if svc.hasSecrets then attempt (.unseal sealed_) else throw .errMFASealUnavailable

def limit : Proc Unit := do
  let limited ← attempt .tooManyAttempts
  if limited then refuse (newRateLimited "too many attempts, retry later") else return ()

def recordFailure : Proc Unit := do
  let now ← ask .now
  let _ ← ask (.repo (.recordAttempt now))
  return ()

/-- The secret of the enrollment, which is returned once. -/
def startEnrollment : Proc String := do
  let enrollment ← repo .getMFA
  if (enrollment.bind Prod.snd).isSome then throw .errMFAAlreadyEnabled
  else if ¬ svc.hasSecrets then throw .errMFASealUnavailable
  else
    let secret ← ask .generateTOTPSecret
    let sealed_ ← attempt (.seal secret)
    repo (.upsertPendingMFA sealed_)
    return secret

def replaceBackupCodes : Proc (List String) := do
  let codes ← ask .generateBackupCodes
  repo (.replaceBackupCodes (codes.map svc.hashBackupCode))
  return codes

def enable (sessionID code : String) : Proc (List String) := do
  match ← repo .getMFA with
  | none => throw .errMFANotEnrolled
  | some (_, some _) => throw .errMFANotEnrolled
  | some (sealed_, none) =>
    let secret ← svc.unsealSecret sealed_
    limit
    let now ← ask .now
    if ¬ svc.verifyTOTP secret code now then
      recordFailure
      refuse (newUnauthenticated "invalid code")
    else
      let now ← ask .now
      repo (.confirmMFA now)
      let codes ← svc.replaceBackupCodes
      if sessionID = "" then return codes
      else
        repo (.confirmSessionMFA sessionID now)
        return codes

def disable : Proc Unit := do
  match ← repo .getMFA with
  | none => throw .errMFANotEnrolled
  | some _ =>
    repo .deleteMFA
    repo .revokeAllUserSessions

/-- The code is that of the moment, or else a backup code, which is used. -/
def verifyCode (sealed_ code : String) (now : Time) : Proc Bool := do
  let code := Strings.trimSpace code
  if code = "" then return false
  else
    let secret ← ask (.unseal sealed_)
    if svc.hasSecrets && secret.toOption.any fun secret => svc.verifyTOTP secret code now then return true
    else
      let used ← ask (.repo (.consumeBackupCode (svc.hashBackupCode code) now))
      return used.toOption = some true

def verifyMFA (sessionID code : String) : Proc Time := do
  match ← repo .getMFA with
  | none => throw .errMFANotEnrolled
  | some (_, none) => throw .errMFANotEnrolled
  | some (sealed_, some _) =>
    limit
    let now ← ask .now
    let ok ← svc.verifyCode sealed_ code now
    if ok then
      match ← ask (.repo (.confirmSessionMFA sessionID now)) with
      | .ok () => return now
      | .error e =>
        if e = .errNotFound then refuse (newUnauthenticated "session no longer valid") else throw e
    else
      recordFailure
      refuse (newUnauthenticated "invalid code")

end Service

/-! ## Requests -/

inductive Call where
  | startEnrollment
  | enable (sessionID code : String)
  | disable
  | verifyMFA (sessionID code : String)
  deriving DecidableEq, Repr

namespace Call

def request : Call → Request
  | startEnrollment => .startEnrollment
  | enable _ _ => .enable
  | disable => .disable
  | verifyMFA _ _ => .verifyMFA

def exec (svc : Service) : Call → Proc Unit
  | startEnrollment => do
    let _ ← svc.startEnrollment
    return ()
  | enable sessionID code => do
    let _ ← svc.enable sessionID code
    return ()
  | disable => Service.disable
  | verifyMFA sessionID code => do
    let _ ← svc.verifyMFA sessionID code
    return ()

/-- A session that serves the request. -/
def program (svc : Service) (c : Call) : Script Op Unit := do
  Script.op (.begin c.request)
  let r ← (c.exec svc).run
  Script.op (.returned c.request r.toOption.isSome)

end Call

def Program (svc : Service) (m : Script Op Unit) : Prop := ∃ c : Call, m = c.program svc

/-! ### A small world -/

/-- One code is right at any time. -/
def plainService : Service where
  totpAt _ _ := "123456"
  toUpper := id
  sha256Hex := id

def emptyWorld : World where
  enrollment := none
  enrollments := 0
  codes := []
  sessions := [{ id := "session", expiresAt := hour }]
  clock := 0
  fault := none
  progress _ := {}
  history := []

abbrev Turns := List (Turn Op World Unit)

/-- The session serves the request, for so many calls. -/
def serves (i : Nat) (c : Call) (n : Nat) : Turns := [.start i (c.program plainService), .calls i n]

theorem serves_legal {M : Machine Op World} (i : Nat) (c : Call) (n : Nat) :
    (serves i c n).Forall (Turn.Legal M (Program plainService)) := ⟨⟨c, rfl⟩, trivial⟩

def execs (i : Nat) {β : Type} (o : Op β) (w : World) : Option (β × World) := w.exec ["ABCDE-FGHJK"] i o

theorem execs_step (i : Nat) {β : Type} (o : Op β) (w : World) (r : β) (w' : World) (h : execs i o w = some (r, w')) :
    machine.step i o w r w' := World.exec_step _ i o w r w' h

end Ploykit.Identity.MFA

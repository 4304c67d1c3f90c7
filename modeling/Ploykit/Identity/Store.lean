import Ploykit.Identity.Rules
import Ploykit.Lib.Keyed

/-!
# The identity tables

`identity/adapters/pgrepo`, as far as the services around codes and links use it: the
tables `auth_challenge`, `user`, `session` and `login_attempt`. Each method is one
statement. The columns that none of these services reads are left out, and so are the client
and the hard limit of a session.

Beside the tables stands a record of what became of the challenges. Nothing reads it.
-/

namespace Ploykit.Identity

open Webx

/-! ## Rows -/

inductive Kind where
  | loginCode
  | resetLink
  | verifyLink
  deriving DecidableEq, Repr

/-- A row of `auth_challenge`. The ids are numbers in the order of issue, for the database's random ones. -/
structure Challenge where
  id : Nat
  email : String
  kind : Kind
  secretHash : String
  attempts : Nat := 0
  expiresAt : Time
  createdAt : Time
  consumedAt : Option Time := none
  deriving DecidableEq, Repr

def Challenge.Of (c : Challenge) (email : String) (kind : Kind) : Prop := c.email = email ∧ c.kind = kind

instance (c : Challenge) (email : String) (kind : Kind) : Decidable (c.Of email kind) :=
  inferInstanceAs (Decidable (_ ∧ _))

/-- `ORDER BY created_at DESC` -/
def Challenge.newer (c c' : Challenge) : Bool := c'.createdAt < c.createdAt

structure User where
  id : String
  email : String
  status : String := "active"
  emailVerifiedAt : Option Time := none
  passwordHash : String := ""
  deriving DecidableEq, Repr

structure Session where
  token : String
  userID : String
  expiresAt : Time
  createdAt : Time
  revokedAt : Option Time := none
  deriving DecidableEq, Repr

structure LoginAttempt where
  ipHash : String
  identity : String
  success : Bool
  createdAt : Time
  deriving DecidableEq, Repr

/-- What becomes of a challenge. -/
inductive Event where
  | issued (id : Nat) (email : String) (kind : Kind)
  /-- A guess has been compared with its secret. -/
  | guessed (id : Nat) (right : Bool)
  | accepted (id : Nat) (email : String) (kind : Kind)
  /-- A session has been opened with it. -/
  | opened (id : Nat)
  deriving DecidableEq, Repr

structure World where
  users : List User
  /-- The last issued first. -/
  challenges : List Challenge
  attempts : List LoginAttempt
  sessions : List Session
  clock : Time
  /-- The latest first. -/
  history : List Event

namespace World

variable (w : World)

def record (e : Event) : World := { w with history := e :: w.history }

/-- `consumed_at IS NULL` -/
def pending (email : String) (kind : Kind) : List Challenge :=
  w.challenges.filter fun c => c.Of email kind ∧ c.consumedAt = none

/-- The row is a first one in the order of `created_at DESC`, or there is none. -/
def Latest (email : String) (kind : Kind) : Option Challenge → Prop
  | none => w.pending email kind = []
  | some c => c ∈ w.pending email kind ∧ ∀ c' ∈ w.pending email kind, c'.createdAt ≤ c.createdAt

def insertChallenge (email : String) (kind : Kind) (secretHash : String) (expiresAt : Time) : World :=
  { w with challenges := { id := w.challenges.length, email, kind, secretHash, expiresAt, createdAt := w.clock } :: w.challenges
           history := .issued w.challenges.length email kind :: w.history }

def updateChallenge (id : Nat) (f : Challenge → Challenge) : World :=
  { w with challenges := w.challenges.map fun c => if c.id = id then f c else c }

/-- A row is as it was, or the one that is updated. -/
theorem mem_updateChallenge {w : World} {id : Nat} {f : Challenge → Challenge} {c : Challenge}
    (h : c ∈ (w.updateChallenge id f).challenges) :
    (c ∈ w.challenges ∧ c.id ≠ id) ∨ ∃ c' ∈ w.challenges, c'.id = id ∧ c = f c' := by
  obtain ⟨c', hc', heq⟩ := List.mem_map.1 h
  split at heq
  · rename_i hid
    exact .inr ⟨c', hc', hid, heq.symm⟩
  · rename_i hid
    exact .inl ⟨heq ▸ hc', heq ▸ hid⟩

@[simp] theorem updateChallenge_length (id : Nat) (f : Challenge → Challenge) :
    (w.updateChallenge id f).challenges.length = w.challenges.length := List.length_map _

def consume (id : Nat) : World := w.updateChallenge id fun c => { c with consumedAt := some w.clock }

def updateUser (id : String) (f : User → User) : World :=
  { w with users := w.users.map fun u => if u.id = id then f u else u }

end World

/-! ## Methods of the repository -/

inductive Err where
  | api (e : Webx.Error)
  | errNotFound
  | other
  deriving DecidableEq, Repr

inductive Query : Type → Type
  | createChallenge (email : String) (kind : Kind) (secretHash : String) (expiresAt : Time) : Query Unit
  | latestPendingChallenge (email : String) (kind : Kind) : Query (Option Challenge)
  | incChallengeAttempts (id : Nat) : Query Unit
  | consumeChallenge (id : Nat) : Query Unit
  | countRecentAttempts (ipHash identity : String) (since : Time) : Query Int
  | recordAttempt (ipHash identity : String) (success : Bool) (now : Time) : Query Unit
  | getUser (id : String) : Query User
  | getUserByEmail (email : String) : Query (Option User)
  /-- `newID` is the id that the database draws. -/
  | upsertUserByEmail (newID email : String) (now : Time) : Query User
  | setPasswordHash (userID passwordHash : String) : Query Unit
  | setEmailVerified (userID : String) (now : Time) : Query Unit
  /-- `through` is the challenge that the session is opened with, for the record. -/
  | createSession (through : Option Nat) (newToken userID : String) (now expiresAt : Time) : Query String
  | revokeAllUserSessions (userID : String) : Query Unit

namespace Query

/-- What the statement answers and leaves. -/
def exec : {β : Type} → Query β → World → Except Err β × World
  | _, .createChallenge email kind secretHash expiresAt, w => (.ok (), w.insertChallenge email kind secretHash expiresAt)
  | _, .latestPendingChallenge email kind, w => (.ok (Lib.Table.first Challenge.newer (w.pending email kind)), w)
  | _, .incChallengeAttempts id, w => (.ok (), w.updateChallenge id fun c => { c with attempts := c.attempts + 1 })
  | _, .consumeChallenge id, w =>
    match w.challenges.find? fun c => c.id = id ∧ c.consumedAt = none with
    | some c => (.ok (), (w.consume id).record (.accepted id c.email c.kind))
    | none => (.error .errNotFound, w)
  | _, .countRecentAttempts ipHash identity since, w =>
    (.ok (w.attempts.countP fun a => a.ipHash = ipHash ∧ a.identity = identity ∧ since ≤ a.createdAt ∧ ¬ a.success), w)
  | _, .recordAttempt ipHash identity success createdAt, w =>
    (.ok (), { w with attempts := { ipHash, identity, success, createdAt } :: w.attempts })
  | _, .getUser id, w =>
    match w.users.find? fun u => u.id = id ∧ u.status = "active" with
    | some u => (.ok u, w)
    | none => (.error .errNotFound, w)
  | _, .getUserByEmail email, w => (.ok (w.users.find? fun u => u.email = email), w)
  | _, .upsertUserByEmail newID email now, w =>
    match w.users.find? fun u => u.email = email with
    | some u => (.ok u, w)
    | none =>
      let u : User := { id := newID, email, emailVerifiedAt := some now }
      (.ok u, { w with users := u :: w.users })
  | _, .setPasswordHash userID passwordHash, w =>
    if w.users.any fun u => u.id = userID then (.ok (), w.updateUser userID fun u => { u with passwordHash })
    else (.error .errNotFound, w)
  | _, .setEmailVerified userID now, w =>
    (.ok (), w.updateUser userID fun u => { u with emailVerifiedAt := u.emailVerifiedAt.or (some now) })
  | _, .createSession through token userID createdAt expiresAt, w =>
    (.ok token, { w with
      sessions := { token, userID, expiresAt, createdAt } :: w.sessions
      history := through.toList.map Event.opened ++ w.history })
  | _, .revokeAllUserSessions userID, w =>
    (.ok (), { w with sessions := w.sessions.map fun s =>
      if s.userID = userID then { s with revokedAt := s.revokedAt.or (some w.clock) } else s })

/-- What it leaves where the answer is lost: a challenge is consumed that nobody has accepted. -/
def lost : {β : Type} → Query β → World → World
  | _, .consumeChallenge id, w => if w.challenges.any fun c => c.id = id ∧ c.consumedAt = none then w.consume id else w
  | _, q, w => (q.exec w).2

/-- The answers of the database, which may take either of two rows of the same time. -/
def Answers : {β : Type} → Query β → World → Except Err β → World → Prop
  | _, .latestPendingChallenge email kind, w, r, w' => (∃ o, r = .ok o ∧ w.Latest email kind o) ∧ w' = w
  | _, q, w, r, w' => (r, w') = q.exec w

theorem createdAt_le_first {l : List Challenge} {c : Challenge} (h : Lib.Table.first Challenge.newer l = some c) :
    ∀ c' ∈ l, c'.createdAt ≤ c.createdAt := by
  intro c' hc'
  have hfirst := Lib.Table.first_le (fun a b hab => ?_) (fun a b d hab hbd => ?_) h c' hc'
  · exact Int.not_lt.1 (by simpa [Challenge.newer] using hfirst)
  · simp only [Challenge.newer, decide_eq_true_eq] at hab ⊢
    exact Int.not_lt.2 (Int.le_of_lt hab)
  · simp only [Challenge.newer, decide_eq_true_eq, Int.not_lt] at hab hbd ⊢
    exact Int.le_trans hab hbd

theorem exec_answers {β : Type} (q : Query β) (w : World) : q.Answers w (q.exec w).1 (q.exec w).2 := by
  cases q with
  | latestPendingChallenge email kind =>
    refine ⟨⟨_, rfl, ?_⟩, rfl⟩
    cases hfirst : Lib.Table.first Challenge.newer (w.pending email kind) with
    | none => exact Lib.Table.first_eq_none.1 hfirst
    | some c => exact ⟨Lib.Table.mem_of_first hfirst, createdAt_le_first hfirst⟩
  | _ => rfl

end Query

end Ploykit.Identity

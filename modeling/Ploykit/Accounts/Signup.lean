import Ploykit.Accounts.Federation
import Ploykit.Lib.Confined

/-!
# Closed signup

While the gate or the configuration says that signup is not allowed, a user is made for an address that
the lists have, and for every address if both are empty.
-/

namespace Ploykit.Accounts

open Lib hiding Time
open Webx
open Identity (normalizeEmail emailOK passwordOK signupAllowed emailWhitelisted)
open Lib.Proc (ask attempt Confined confined_pure confined_throw confined_bind confined_ite confined_ask confined_attempt
  Visits Reaches reaches_pure reaches_ask reaches_attempt visits_ask visits_attempt visits_bind_left)

/-! ## The paths -/

inductive SignupPath where
  | register
  | verifyCode
  | oauth
  | federated
  deriving DecidableEq, Repr

/-- The call takes the path. -/
def SignupPath.Is : SignupPath → Call → Prop
  | register, .register .. => True
  | verifyCode, .verifyCode .. => True
  | oauth, .oauthLogin .. => True
  | federated, .fedCallback .. => True
  | federated, .fedLogin .. => True
  | _, _ => False

/-- Signup is not allowed, and these are the domains. -/
def Op.Shut (domains : List String) : {β : Type} → Op β → β → Prop
  | _, .signupGate, r => r = (false, domains)
  | _, _, _ => True

/-- The gate or the configuration may say that signup is not allowed, and that these are the domains. -/
def Service.Closed (svc : Service) (domains : List String) : Prop :=
  svc.hasSignupGate = false → svc.allowSignup = false ∧ svc.allowedDomains = domains

/-- No user has the address. -/
def World.Lacks (w : World) (email : String) : Prop := w.users.find (·.email = email) = none

/-- One call of a path while signup is closed. Before the next one others do what they like, but for making a user of
the address. -/
def ClosedStep (svc : Service) (domains : List String) (email : String) {β : Type} (o : Op β) (w : World) (r : β)
    (w'' : World) : Prop :=
  ∃ w', Step svc o w r w' ∧ o.Shut domains r ∧ (w'.Lacks email → w''.Lacks email)

/-- A call of the path makes a user of the address, which has been new. -/
def Creates (svc : Service) (domains : List String) (k : SignupPath) (email : String) : Prop :=
  ∃ c w, k.Is c ∧ w.Lacks email ∧ Visits (ClosedStep svc domains email) (c.exec svc) w (¬ ·.Lacks email)

/-! ## Statements -/

namespace World.Lacks

variable {cfg : Config} {w : World} {email : String}

theorem iff_rows : w.Lacks email ↔ ∀ u ∈ w.users.rows, u.email ≠ email := by
  simp [World.Lacks, Keyed.find]

theorem exec {β : Type} {q : Query β} (h : ¬ q.touchesUsers) (hw : w.Lacks email) : (q.exec cfg w).2.Lacks email := by
  rw [World.Lacks, Query.exec_users h]
  exact hw

theorem insertUser {u : User} (hu : u.email ≠ email) (hw : w.Lacks email) : (w.insertUser u).2.Lacks email := by
  rcases Query.insertUser_cases w u with h | ⟨hfresh, -, h⟩
  · rw [World.Lacks, h]
    exact hw
  · rw [iff_rows, h]
    intro v hv
    rcases Keyed.mem_insert.1 hv with hv | rfl
    · exact iff_rows.1 hw v hv
    · exact hu

theorem upsertUserByEmail {newID email' : String} {now : Identity.Time} (hne : email' ≠ email) (hw : w.Lacks email) :
    ((Query.upsertUserByEmail newID email' now).exec cfg w).2.Lacks email := by
  simp only [Query.exec]
  split
  · exact hw
  · exact hw.insertUser hne

theorem setEmailVerified {userID : String} {now : Identity.Time} (hw : w.Lacks email) :
    ((Query.setEmailVerified userID now).exec cfg w).2.Lacks email := by
  rw [iff_rows]
  intro u hu
  have hmem : u ∈ (w.users.update [userID] (fun u => { u with emailVerifiedAt := u.emailVerifiedAt.or (some now) })
    fun _ => rfl).rows := hu
  obtain ⟨v, hv, rfl⟩ := Keyed.mem_update.1 hmem
  have hkept : v.email ≠ email := iff_rows.1 hw v hv
  split
  · exact hkept
  · exact hkept

/-- Where there is no user a new one can be inserted. -/
theorem not_insertUser {u : User} (hw : w.users = .empty) : ¬ (w.insertUser u).2.Lacks u.email := by
  have hfresh : w.users.get u.id = none ∧ w.users.find (·.email = u.email) = none := by
    rw [hw]
    exact ⟨rfl, rfl⟩
  have hmem : u ∈ (w.users.insert u hfresh.1).rows := Keyed.mem_insert.2 (.inr rfl)
  rw [World.insertUser, dif_pos hfresh, iff_rows]
  exact fun h => h u hmem rfl

end World.Lacks

/-! ## Who is let in -/

section paths

variable {svc : Service} {domains : List String} {email : String}

theorem ClosedStep.keeps {β : Type} {o : Op β} {w w' : World} {r : β} (h : ClosedStep svc domains email o w r w')
    (ho : o.Meets (fun q w => w.Lacks email → (q.exec svc.cfg w).2.Lacks email) w) (hw : w.Lacks email) : w'.Lacks email := by
  obtain ⟨w₁, hstep, -, hothers⟩ := h
  refine hothers (hstep.keeps (I := (·.Lacks email)) ?_ ho hw)
  exact fun q r _ hq hw => hq hw

/-- No user of the address is made, and what is returned satisfies `Q`. -/
abbrev Spares (svc : Service) (domains : List String) (email : String) {α : Type} (m : Proc α) (Q : α → Prop) : Prop :=
  Confined (ClosedStep svc domains email) (·.Lacks email) m Q

section rules

variable {α : Type} {q : Query α}

theorem spares_ask {o : Op α} (ho : ∀ w, o.Meets (fun q w => w.Lacks email → (q.exec svc.cfg w).2.Lacks email) w) :
    Spares svc domains email (ask o) fun _ => True :=
  confined_ask fun w _ _ hw hstep => ⟨hstep.keeps (ho w) hw, trivial⟩

theorem spares_attempt {o : Op (Except Err α)}
    (ho : ∀ w, o.Meets (fun q w => w.Lacks email → (q.exec svc.cfg w).2.Lacks email) w) :
    Spares svc domains email (attempt o) fun _ => True :=
  confined_attempt fun w _ _ hw hstep => ⟨hstep.keeps (ho w) hw, fun _ _ => trivial⟩

theorem spares_db (hq : ∀ w : World, w.Lacks email → (q.exec svc.cfg w).2.Lacks email) :
    Spares svc domains email (db q) fun _ => True := spares_attempt hq

theorem spares_dbOr {err : Err} {refusal : Webx.Error} (hq : ∀ w : World, w.Lacks email → (q.exec svc.cfg w).2.Lacks email) :
    Spares svc domains email (dbOr err refusal q) fun _ => True := by
  refine confined_bind (spares_ask hq) fun r _ => ?_
  cases r with
  | ok a => exact confined_pure trivial
  | error e => exact confined_ite (fun _ => confined_throw) fun _ => confined_throw

end rules

/-- The own address is not found. -/
theorem spares_getUserByEmail {email' : String} :
    Spares svc domains email (db (.getUserByEmail email')) fun u => u.isSome → email' ≠ email := by
  refine confined_attempt fun w r w' hw hstep => ⟨hstep.keeps (World.Lacks.exec Bool.false_ne_true) hw, ?_⟩
  rintro u rfl hu rfl
  obtain ⟨w₁, hstep, -, -⟩ := hstep
  rcases hstep with ⟨htold | ⟨e, he⟩, -⟩ | ⟨⟨e, he⟩, -⟩
  · cases htold
    rw [hw] at hu
    cases hu
  · cases he
  · cases he

theorem spares_createSession {party : Party} {proof : Proof} {newToken : String} {user : User} {passwordConfirmed registered : Bool} :
    Spares svc domains email (Service.createSession party proof newToken user passwordConfirmed registered) fun _ => True :=
  confined_bind (spares_ask fun _ => trivial) fun _ _ =>
    confined_bind (spares_db fun _ => World.Lacks.exec Bool.false_ne_true) fun _ _ => confined_pure trivial

/-- What the lists say decides. -/
theorem spares_signupBlocked (hclosed : svc.Closed domains) {email' : String} : Spares svc domains email
    (svc.signupBlocked email') fun blocked => blocked = !signupAllowed svc.toLower email' svc.allowedEmails domains := by
  have hsettings : Spares svc domains email svc.signupSettings (· = (false, domains)) := by
    refine confined_ite (fun _ => ?_) fun hgate => ?_
    · refine confined_ask fun w r w' hw hstep => ⟨hstep.keeps trivial hw, ?_⟩
      obtain ⟨w₁, -, hshut, -⟩ := hstep
      exact hshut
    · obtain ⟨hallow, hdomains⟩ := hclosed (Bool.eq_false_iff.2 hgate)
      exact confined_pure (by rw [hallow, hdomains])
  refine confined_bind hsettings ?_
  rintro _ rfl
  exact confined_pure (by simp)

section stranger

variable (hclosed : svc.Closed domains)
  (hstranger : ¬ (emailOK svc.toLower email ∧ signupAllowed svc.toLower email svc.allowedEmails domains))

include hclosed hstranger

theorem spares_register {party : Party} {newID newToken rawEmail password displayName : String} :
    Spares svc domains email (svc.register party newID newToken rawEmail password displayName) fun _ => True := by
  refine confined_ite (fun _ => confined_throw) fun hok => confined_ite (fun _ => confined_throw) fun _ => ?_
  refine confined_ite (fun _ => confined_throw) fun _ => confined_bind (spares_signupBlocked hclosed) fun blocked hb => ?_
  refine confined_ite (fun _ => confined_throw) fun hopen => ?_
  have hne : normalizeEmail svc.toLower rawEmail ≠ email := by
    rintro rfl
    exact hstranger ⟨by simpa using hok, by simpa [hb] using hopen⟩
  refine confined_bind (spares_attempt fun _ => trivial) fun hash _ => ?_
  refine confined_bind (spares_dbOr fun w hw => hw.insertUser hne) fun user _ => ?_
  exact spares_createSession

theorem spares_enter {party : Party} {proof : Proof} {newID newToken email' : String} (hok : emailOK svc.toLower email') :
    Spares svc domains email (svc.enter party proof newID newToken email') fun _ => True := by
  have henters : Spares svc domains email (svc.mayEnter email') fun enters => enters = true → email' ≠ email := by
    refine confined_bind (spares_signupBlocked hclosed) fun blocked hb => ?_
    refine confined_ite (fun hopen => confined_pure fun _ => ?_) fun _ => ?_
    · rintro rfl
      exact hstranger ⟨hok, by simpa [hb] using hopen⟩
    · exact confined_bind spares_getUserByEmail fun u hu => confined_pure hu
  refine confined_bind henters fun enters hne => confined_ite (fun _ => confined_throw) fun henters => ?_
  have hne : email' ≠ email := hne (by simpa using henters)
  refine confined_bind (spares_db fun _ => World.Lacks.exec Bool.false_ne_true) fun _ _ => ?_
  refine confined_bind (spares_ask fun _ => trivial) fun now _ => ?_
  refine confined_bind (spares_db fun w hw => hw.upsertUserByEmail hne) fun user _ => ?_
  exact confined_ite (fun _ => confined_throw) fun _ => spares_createSession

theorem spares_verifyCode {party : Party} {newID newToken ipHash rawEmail code : String} :
    Spares svc domains email (svc.verifyCode party newID newToken ipHash rawEmail code) fun _ => True := by
  refine confined_ite (fun _ => confined_throw) fun hok => confined_ite (fun _ => confined_throw) fun _ => ?_
  have hok : emailOK svc.toLower (normalizeEmail svc.toLower rawEmail) := by simpa using hok
  refine confined_ite (fun _ => spares_enter hclosed hstranger hok) fun _ => ?_
  exact confined_bind (spares_attempt fun _ => trivial) fun _ _ => spares_enter hclosed hstranger hok

theorem spares_linkOAuthIdentity {newID : String} {id : OAuthIdentity} :
    Spares svc domains email (svc.linkOAuthIdentity newID id) fun _ => True := by
  refine confined_ite (fun _ => confined_throw) fun hok => confined_ite (fun _ => confined_throw) fun _ => ?_
  refine confined_bind (spares_db fun _ => World.Lacks.exec Bool.false_ne_true) fun found _ => ?_
  cases found with
  | some uid =>
    exact confined_bind (spares_dbOr fun _ => World.Lacks.exec Bool.false_ne_true) fun _ _ => confined_pure trivial
  | none =>
    refine confined_bind (spares_db fun _ => World.Lacks.exec Bool.false_ne_true) fun existing _ => ?_
    cases existing with
    | some u =>
      refine confined_ite (fun _ => confined_throw) fun _ => ?_
      exact confined_bind (spares_db fun _ => World.Lacks.exec Bool.false_ne_true) fun _ _ => confined_pure trivial
    | none =>
      refine confined_bind (spares_signupBlocked hclosed) fun blocked hb => ?_
      refine confined_ite (fun _ => confined_throw) fun hopen => ?_
      have hne : normalizeEmail svc.toLower id.email ≠ email := by
        rintro rfl
        exact hstranger ⟨by simpa using hok, by simpa [hb] using hopen⟩
      refine confined_bind (spares_ask fun _ => trivial) fun now _ => ?_
      refine confined_bind (spares_db fun w hw => hw.upsertUserByEmail hne) fun u _ => ?_
      refine confined_ite (fun _ => confined_throw) fun _ => confined_bind (spares_ask fun _ => trivial) fun now _ => ?_
      refine confined_bind (spares_db fun w hw => hw.setEmailVerified) fun _ _ => ?_
      exact confined_bind (spares_db fun _ => World.Lacks.exec Bool.false_ne_true) fun _ _ => confined_pure trivial

theorem spares_oauthCallback {newID providerName code state : String} {cookie : Option String} :
    Spares svc domains email (svc.oauthCallback newID providerName cookie code state) fun _ => True := by
  refine confined_bind (spares_ask fun _ => trivial) fun _ _ => confined_ite (fun _ => confined_throw) fun _ => ?_
  refine confined_ite (fun _ => confined_throw) fun _ => confined_bind (spares_attempt fun _ => trivial) fun id _ => ?_
  exact spares_linkOAuthIdentity hclosed hstranger

omit hclosed hstranger in
theorem spares_fedProvider {workspaceID : String} :
    Spares svc domains email (Service.fedProvider workspaceID) fun _ => True := by
  refine confined_bind (spares_db fun _ => World.Lacks.exec Bool.false_ne_true) fun row _ => ?_
  cases row with
  | none => exact confined_throw
  | some row =>
    refine confined_bind (spares_ask fun _ => trivial) fun _ _ => confined_ite (fun _ => confined_throw) fun _ => ?_
    refine confined_bind (spares_ask fun _ => trivial) fun _ _ => confined_ite (fun _ => confined_throw) fun _ => ?_
    exact confined_pure trivial

theorem spares_fedCallback {newID code state : String} {cookie : Option FedLoginCookie} :
    Spares svc domains email (svc.fedCallback newID cookie code state) fun _ => True := by
  cases cookie with
  | none => exact confined_throw
  | some fc =>
    refine confined_ite (fun _ => confined_throw) fun _ => confined_ite (fun _ => confined_throw) fun _ => ?_
    refine confined_bind spares_fedProvider fun row _ => ?_
    refine confined_bind (spares_attempt fun _ => trivial) fun id _ => ?_
    exact confined_bind (spares_linkOAuthIdentity hclosed hstranger) fun _ _ => confined_pure trivial

omit hclosed hstranger in
theorem spares_completeThirdPartyLogin {party : Party} {newToken : String} {res : ThirdPartyLinkResult} :
    Spares svc domains email (Service.completeThirdPartyLogin party newToken res) fun _ => True :=
  confined_bind (spares_db fun _ => World.Lacks.exec Bool.false_ne_true) fun _ _ => spares_createSession

/-- No path makes a user of an address that is invalid, or that the lists do not allow. -/
theorem spares_path {k : SignupPath} {c : Call} (hc : k.Is c) : Spares svc domains email (c.exec svc) fun _ => True := by
  cases c with
  | register =>
    exact confined_bind (spares_register hclosed hstranger) fun _ _ => confined_pure trivial
  | verifyCode =>
    exact confined_bind (spares_verifyCode hclosed hstranger) fun _ _ => confined_pure trivial
  | oauthLogin =>
    refine confined_bind (spares_oauthCallback hclosed hstranger) fun res _ => ?_
    exact confined_bind spares_completeThirdPartyLogin fun _ _ => confined_pure trivial
  | fedCallback =>
    exact confined_bind (spares_fedCallback hclosed hstranger) fun _ _ => confined_pure trivial
  | fedLogin =>
    refine confined_bind (spares_fedCallback hclosed hstranger) fun res _ => ?_
    exact confined_bind spares_completeThirdPartyLogin fun _ _ => confined_pure trivial
  | _ => cases k <;> exact hc.elim

end stranger

/-! ## How users are made -/

theorem ClosedStep.alone {β : Type} {o : Op β} {w w' : World} {r : β} (h : Step svc o w r w') (hs : o.Shut domains r) :
    ClosedStep svc domains email o w r w' := ⟨w', h, hs, id⟩

section accounts

variable {w : World} {α : Type}

/-- A statement that leaves everything as it is. -/
theorem reaches_db {q : Query α} {a : α} (h : (q.exec svc.cfg w).1 = .ok a) (hkeeps : q.effect svc.cfg w (.ok a) = w) :
    Reaches (ClosedStep svc domains email) (db q) w a w :=
  reaches_attempt (.alone (.inl ⟨.inl h.symm, hkeeps.symm⟩) trivial)

theorem visits_ask_db {q : Query α} (h : ¬ (q.exec svc.cfg w).2.Lacks email) :
    Visits (ClosedStep svc domains email) (ask (.db q) : Proc (Except Err α)) w (¬ ·.Lacks email) :=
  visits_ask (.alone (.inl ⟨.inl rfl, rfl⟩) trivial) h

theorem visits_db {q : Query α} (h : ¬ (q.exec svc.cfg w).2.Lacks email) :
    Visits (ClosedStep svc domains email) (db q) w (¬ ·.Lacks email) :=
  visits_attempt (.alone (.inl ⟨.inl rfl, rfl⟩) trivial) h

theorem reaches_now : Reaches (ClosedStep svc domains email) (ask .now : Proc Identity.Time) w w.clock w :=
  reaches_ask (.alone ⟨rfl, rfl⟩ trivial)

theorem reaches_signupBlocked (hclosed : svc.Closed domains) {email' : String}
    (hallowed : signupAllowed svc.toLower email' svc.allowedEmails domains) :
    Reaches (ClosedStep svc domains email) (svc.signupBlocked email') w false w := by
  have hsettings : Reaches (ClosedStep svc domains email) svc.signupSettings w (false, domains) w := by
    rw [Service.signupSettings]
    split
    · exact reaches_ask (.alone rfl rfl)
    · rename_i hgate
      obtain ⟨hallow, hdomains⟩ := hclosed (Bool.eq_false_iff.2 hgate)
      rw [hallow, hdomains]
      exact reaches_pure
  have hopen : decide (¬ (false : Bool) ∧ ¬ signupAllowed svc.toLower email' svc.allowedEmails domains) = false := by
    simp [hallowed]
  refine hsettings.bind ?_
  dsimp only
  rw [hopen]
  exact reaches_pure

end accounts

section members

variable {w : World} (hclosed : svc.Closed domains) (hok : emailOK svc.toLower email)
  (hallowed : signupAllowed svc.toLower email svc.allowedEmails domains) (hw : w.users = .empty)

include hw

theorem find_none : w.users.find (·.email = email) = none := by
  rw [hw]
  rfl

theorem knows_upsertUserByEmail {cfg : Config} {newID : String} {now : Identity.Time} :
    ¬ ((Query.upsertUserByEmail newID email now).exec cfg w).2.Lacks email := by
  simp only [Query.exec, find_none hw]
  exact World.Lacks.not_insertUser hw

include hclosed hok hallowed

theorem visits_linkOAuthIdentity {newID : String} {id : OAuthIdentity} (hid : normalizeEmail svc.toLower id.email = email)
    (hverified : id.emailVerified) (hlinks : w.links = .empty) :
    Visits (ClosedStep svc domains email) (svc.linkOAuthIdentity newID id) w (¬ ·.Lacks email) := by
  have hfound : (w.links.get (id.provider, id.subject)).map OAuthAccount.userID = none := by
    rw [hlinks]
    rfl
  rw [Service.linkOAuthIdentity, hid]
  simp only [hok, hverified, not_true, if_false]
  refine (reaches_db (q := .findOAuthAccount id.provider id.subject) (congrArg Except.ok hfound) rfl).visits_bind ?_
  refine (reaches_db (q := .getUserByEmail email) (congrArg Except.ok (find_none hw)) rfl).visits_bind ?_
  refine (reaches_signupBlocked hclosed hallowed).visits_bind ?_
  exact reaches_now.visits_bind (visits_bind_left (visits_db (knows_upsertUserByEmail hw)))

theorem visits_verifyCode {party : Party} {newID newToken ipHash rawEmail code : String}
    (hraw : normalizeEmail svc.toLower rawEmail = email) (hcode : code ≠ svc.devCode) :
    Visits (ClosedStep svc domains email) (svc.verifyCode party newID newToken ipHash rawEmail code) w (¬ ·.Lacks email) := by
  have henters : Reaches (ClosedStep svc domains email) (svc.mayEnter email) w true w :=
    (reaches_signupBlocked hclosed hallowed).bind reaches_pure
  rw [Service.verifyCode, hraw]
  simp only [hok, hcode, and_false, not_true, if_false]
  refine (reaches_attempt (a := ()) (.alone rfl trivial)).visits_bind ?_
  refine henters.visits_bind ?_
  refine (reaches_db (q := .getUserByEmail email) (congrArg Except.ok (find_none hw)) rfl).visits_bind ?_
  exact reaches_now.visits_bind (visits_bind_left (visits_db (knows_upsertUserByEmail hw)))

theorem visits_register {party : Party} {newID newToken rawEmail : String} (hraw : normalizeEmail svc.toLower rawEmail = email) :
    Visits (ClosedStep svc domains email) (svc.register party newID newToken rawEmail "Tr0ub4dor&3" "Ann") w
      (¬ ·.Lacks email) := by
  have hpassword : passwordOK "Tr0ub4dor&3" := by decide
  have hname : Service.displayNameOK "Ann" := by decide
  have hknows : ¬ ((Query.createUserWithPassword party newID email "").exec svc.cfg w).2.Lacks email :=
    World.Lacks.not_insertUser (u := { id := newID, email, passwordHash := "", registeredBy := some party }) hw
  rw [Service.register, hraw]
  simp only [hok, hpassword, hname, not_true, if_false]
  refine (reaches_signupBlocked hclosed hallowed).visits_bind ?_
  refine (reaches_attempt (a := "") (.alone rfl trivial)).visits_bind ?_
  exact visits_bind_left (visits_bind_left (visits_ask_db hknows))

theorem visits_oauthCallback {newID rawEmail : String} (hraw : normalizeEmail svc.toLower rawEmail = email)
    (hlinks : w.links = .empty) :
    Visits (ClosedStep svc domains email) (svc.oauthCallback newID "github" (some "state") "code" "state") w (¬ ·.Lacks email) := by
  have hexchange : Step svc (.exchange "github" "code") w (.ok ⟨.oauth "github", "sub", rawEmail, true⟩) w := by
    refine ⟨fun id hid => ?_, rfl⟩
    cases hid
    rfl
  refine (reaches_ask (a := true) (.alone rfl trivial)).visits_bind ?_
  refine (reaches_attempt (.alone hexchange trivial)).visits_bind ?_
  exact visits_linkOAuthIdentity hclosed hok hallowed hw hraw rfl hlinks

theorem visits_fedCallback {newID rawEmail : String} {row : FedProviderRow} (hraw : normalizeEmail svc.toLower rawEmail = email)
    (hlinks : w.links = .empty) (hrow : w.providers.get "w" = some row) :
    Visits (ClosedStep svc domains email) (svc.fedCallback newID (some fedCookie) "code" "state") w (¬ ·.Lacks email) := by
  have hprovider : Reaches (ClosedStep svc domains email) (Service.fedProvider "w") w row w := by
    refine (reaches_db (q := .getFedProvider "w") (congrArg Except.ok hrow) rfl).bind ?_
    refine (reaches_ask (a := true) (.alone rfl trivial)).bind ?_
    exact (reaches_ask (a := true) (.alone rfl trivial)).bind reaches_pure
  refine hprovider.visits_bind ?_
  refine (reaches_attempt (a := ⟨.oauth "", "sub", rawEmail, true⟩) (.alone rfl trivial)).visits_bind ?_
  exact visits_bind_left (visits_linkOAuthIdentity hclosed hok hallowed hw hraw rfl hlinks)

end members

/-! ## Closed signup -/

section closed

variable (hclosed : svc.Closed domains) (raw : String)

include hclosed

theorem creates_of_allowed (k : SignupPath) (hok : emailOK svc.toLower (normalizeEmail svc.toLower raw))
    (hallowed : signupAllowed svc.toLower (normalizeEmail svc.toLower raw) svc.allowedEmails domains) :
    Creates svc domains k (normalizeEmail svc.toLower raw) := by
  cases k with
  | register =>
    exact ⟨.register 0 "u" "t" raw "Tr0ub4dor&3" "Ann", emptyWorld, trivial, rfl,
      visits_bind_left (visits_register hclosed hok hallowed rfl rfl)⟩
  | verifyCode =>
    have hcode : ∃ code, code ≠ svc.devCode := by
      by_cases hdev : svc.devCode = "123456"
      · exact ⟨"654321", by rw [hdev]; decide⟩
      · exact ⟨"123456", Ne.symm hdev⟩
    obtain ⟨code, hcode⟩ := hcode
    exact ⟨.verifyCode 0 "u" "t" "ip" raw code, emptyWorld, trivial, rfl,
      visits_bind_left (visits_verifyCode hclosed hok hallowed rfl rfl hcode)⟩
  | oauth =>
    exact ⟨.oauthLogin 0 "u" "t" "github" (some "state") "code" "state", emptyWorld, trivial, rfl,
      visits_bind_left (visits_oauthCallback hclosed hok hallowed rfl rfl rfl)⟩
  | federated =>
    exact ⟨.fedCallback "u" (some fedCookie) "code" "state",
      { emptyWorld with providers := ⟨[fakeProvider "https://one.example.com"], List.nodup_singleton _⟩ }, trivial, rfl,
      visits_bind_left (visits_fedCallback hclosed hok hallowed rfl rfl rfl rfl)⟩

/-- Each path makes users of the same addresses. -/
theorem creates_iff (k : SignupPath) : Creates svc domains k (normalizeEmail svc.toLower raw) ↔
    emailOK svc.toLower (normalizeEmail svc.toLower raw) ∧
      signupAllowed svc.toLower (normalizeEmail svc.toLower raw) svc.allowedEmails domains := by
  constructor
  · rintro ⟨c, w, hc, hw, hvisits⟩
    by_contra hstranger
    exact (spares_path hclosed hstranger hc).not_visits hw hvisits
  · rintro ⟨hok, hallowed⟩
    exact creates_of_allowed hclosed raw k hok hallowed

end closed

end paths

theorem signupAllowed_iff {toLower : String → String} {email : String} {emails domains : List String} :
    signupAllowed toLower email emails domains ↔ emails = [] ∧ domains = [] ∨ emailWhitelisted toLower email emails domains := by
  rw [signupAllowed]
  split
  · simp [*]
  · simp [*]

theorem not_emailWhitelisted_nil {toLower : String → String} {email : String} : ¬ emailWhitelisted toLower email [] [] := by
  rw [emailWhitelisted]
  cases Identity.emailDomain (toLower (Strings.trimSpace email)).toList <;> simp

/-- While signup is closed users are made only of addresses that a list has, and of the same on all paths, if and only if
one of the lists has an entry, or the address is not valid anyway. -/
theorem closed_signup {svc : Service} {domains : List String} (hclosed : svc.Closed domains) (raw : String) :
    (∀ k, Creates svc domains k (normalizeEmail svc.toLower raw) →
        emailWhitelisted svc.toLower (normalizeEmail svc.toLower raw) svc.allowedEmails domains) ∧
      (∀ k k', Creates svc domains k (normalizeEmail svc.toLower raw) ↔
        Creates svc domains k' (normalizeEmail svc.toLower raw)) ↔
    svc.allowedEmails ≠ [] ∨ domains ≠ [] ∨ emailOK svc.toLower (normalizeEmail svc.toLower raw) = false := by
  simp only [creates_iff hclosed raw, signupAllowed_iff, iff_self, implies_true, and_true]
  constructor
  · intro h
    by_contra hempty
    push Not at hempty
    obtain ⟨hemails, hdomains, hok⟩ := hempty
    have hlisted := h .register ⟨by simpa using hok, .inl ⟨hemails, hdomains⟩⟩
    rw [hemails, hdomains] at hlisted
    exact not_emailWhitelisted_nil hlisted
  · rintro hnonempty k ⟨hok, ⟨hemails, hdomains⟩ | hlisted⟩
    · rw [hok] at hnonempty
      simp [hemails, hdomains] at hnonempty
    · exact hlisted

/-! ### By invitation -/

/-- Signup is closed, but for the domains. -/
def invites (allowedDomains : List String) : Service := { plainService with allowSignup := false, allowedDomains }

theorem closed_signup_stranger : (invites ["corp.com"]).Closed ["corp.com"] ∧
    ¬ Creates (invites ["corp.com"]) ["corp.com"] .verifyCode (normalizeEmail id "stranger@evil.com") := by
  have hclosed : (invites ["corp.com"]).Closed ["corp.com"] := fun _ => ⟨rfl, rfl⟩
  refine ⟨hclosed, fun hcreates => ?_⟩
  have hlisted := ((closed_signup hclosed "stranger@evil.com").2 (.inr (.inl (by decide)))).1 _ hcreates
  have hstranger : emailWhitelisted id (normalizeEmail id "stranger@evil.com") [] ["corp.com"] = false := by decide
  rw [show (invites ["corp.com"]).toLower = id from rfl, show (invites ["corp.com"]).allowedEmails = [] from rfl, hstranger] at hlisted
  cases hlisted

theorem closed_signup_open : ¬ ∀ (svc : Service) (domains : List String) (k : SignupPath) (raw : String), svc.Closed domains →
    Creates svc domains k (normalizeEmail svc.toLower raw) →
    emailWhitelisted svc.toLower (normalizeEmail svc.toLower raw) svc.allowedEmails domains := by
  intro h
  have hclosed : (invites []).Closed [] := fun _ => ⟨rfl, rfl⟩
  have hok : emailOK id (normalizeEmail id "stranger@evil.com") := by decide
  exact not_emailWhitelisted_nil (h (invites []) [] .verifyCode "stranger@evil.com" hclosed
    (creates_of_allowed hclosed _ _ hok rfl))

end Ploykit.Accounts

import Ploykit.Accounts.Growth

/-!
# Tokens of the API

`createPAT` and `validatePATScope` of `identity/adapters/http`, over the service and the statements.
The number of hours is an integer of 64 bits, like the nanoseconds it is turned into.
-/

namespace Ploykit.Accounts

open Lib hiding Time
open Webx
open Identity (Time Duration hour)
open Lib.Proc (ask attempt)

/-! ## The request -/

def maxScopeWorkspaceIDs : Nat := 32

/-- What is wrong with the scope. An identifier is quoted as by `%q`. -/
def validatePATScope (isUUID : String → Bool) (quote : String → String) : Option CredentialScope → Option Webx.Error
  | none => none
  | some scope =>
    if scope.workspaceIDs = some [] then
      some (newValidation ("scope.workspace_ids: an empty list means allow-nothing; omit the field for an unrestricted token, " ++
        "or list workspace ids"))
    else if scope.permissions = some [] then
      some (newValidation ("scope.permissions: an empty list means allow-nothing; omit the field for an unrestricted token, " ++
        "or list permissions"))
    else if maxScopeWorkspaceIDs < (scope.workspaceIDs.getD []).length then
      some (newValidation ("scope.workspace_ids: " ++ toString (scope.workspaceIDs.getD []).length ++
        " entries exceeds the limit of " ++ toString maxScopeWorkspaceIDs))
    else ((scope.workspaceIDs.getD []).find? fun id => !isUUID id).map fun id =>
      newValidation ("scope.workspace_ids: " ++ quote id ++ " is not a workspace id (expected a uuid)")

/-- `time.Duration(req.TTLHours) * time.Hour`, if the hours are positive. -/
def ttlOf (ttlHours : BitVec 64) : Duration := if 0 < ttlHours.toInt then (ttlHours * BitVec.ofInt 64 hour).toInt else 0

/-- The scope that is read back from the two columns. -/
def credentialScope (ws perms : Option (List String)) : Option CredentialScope :=
  if ws = none ∧ perms = none then none else some ⟨ws, perms⟩

def stored (scope : Option CredentialScope) : Option CredentialScope :=
  credentialScope (scope.bind (·.workspaceIDs)) (scope.bind (·.permissions))

/-- What a caller asks for. -/
structure TokenRequest where
  p : Principal
  newToken : String
  name : String
  ttlHours : BitVec 64
  scope : Option CredentialScope

def TokenRequest.serve (isUUID : String → Bool) (quote : String → String) (r : TokenRequest) : Proc Unit :=
  match validatePATScope isUUID quote r.scope with
  | some e => refuse e
  | none => Service.createPAT r.p r.newToken r.name (ttlOf r.ttlHours) (stored r.scope)

/-! ## Later states -/

/-- What calls in any number and order, and time, make of a world. -/
inductive World.Later (svc : Service) (w : World) : World → Prop
  | refl : Later svc w w
  | call {w' w'' : World} {β : Type} {o : Op β} {r : β} (h : Later svc w w') (hs : Step svc o w' r w'') : Later svc w w''
  | tick {w' : World} (now : Time) (h : Later svc w w') : Later svc w { w' with clock := now }

/-- What may become of a token. -/
structure PAT.Becomes (t t' : PAT) : Prop where
  expiresAt : t'.expiresAt = t.expiresAt
  scope : t'.scope = t.scope
  revoked : t.revokedAt ≠ none → t'.revokedAt ≠ none

namespace Query

variable {cfg : Config} {β : Type} {q : Query β} {w : World}

/-- A statement leaves the tokens, revokes some, or inserts one. -/
theorem pats_cases (cfg : Config) (q : Query β) (w : World) : (q.exec cfg w).2.pats = w.pats ∨
    (∃ p now, (q.exec cfg w).2.pats = (w.revokePATs p now).pats) ∨ ∃ t h, (q.exec cfg w).2.pats = w.pats.insert t h := by
  cases q with
  | createPAT newToken userID expiresAt scope =>
    simp only [exec]
    split
    · exact .inl rfl
    · split
      · exact .inr (.inr ⟨_, ‹_›, rfl⟩)
      · exact .inl rfl
  | revokePAT userID token now =>
    simp only [exec]
    split
    · exact .inr (.inl ⟨_, _, rfl⟩)
    · exact .inl rfl
  | softDeleteUserTx actor userID now =>
    simp only [exec]
    split
    · exact .inl rfl
    · split
      · exact .inr (.inl ⟨_, _, rfl⟩)
      · exact .inl rfl
  | upsertUserByEmail newID email now =>
    refine .inl ?_
    simp only [exec, World.insertUser]
    split
    · rfl
    · split <;> rfl
  | createUserWithPassword party newID email passwordHash =>
    refine .inl ?_
    simp only [exec, World.insertUser]
    split <;> rfl
  | getUser id =>
    refine .inl ?_
    simp only [exec]
    split
    · split <;> rfl
    · rfl
  | createSession party proof newToken userID passwordConfirmed impersonatedBy now =>
    refine .inl ?_
    simp only [exec]
    split
    · rfl
    · split
      · rfl
      · split <;> rfl
  | linkOAuthAccount provider subject userID =>
    refine .inl ?_
    simp only [exec]
    split
    · rfl
    · split
      · rfl
      · split <;> rfl
  | setPasswordHash userID passwordHash now =>
    refine .inl ?_
    simp only [exec]
    split <;> rfl
  | setUserStatus actor userID status =>
    refine .inl ?_
    simp only [exec]
    split <;> rfl
  | setPlatformAdmin actor userID isAdmin =>
    refine .inl ?_
    simp only [exec]
    split <;> rfl
  | confirmSessionPassword generation token now =>
    refine .inl ?_
    simp only [exec]
    split <;> rfl
  | confirmSessionMFA token now =>
    refine .inl ?_
    simp only [exec]
    split <;> rfl
  | revokeUserSessionByID userID token now =>
    refine .inl ?_
    simp only [exec]
    split <;> rfl
  | deleteFedProvider workspaceID =>
    refine .inl ?_
    simp only [exec]
    split <;> rfl
  | _ => exact .inl rfl

end Query

/-! ## What stays of a token -/

section tokens

variable {svc : Service} {w w' : World} {token : String} {t : PAT}

theorem World.get_revokePATs (p : PAT → Bool) (now : Time) (h : w.pats.get token = some t) :
    (w.revokePATs p now).pats.get token = some (if p t then { t with revokedAt := t.revokedAt.or (some now) } else t) := by
  rw [revokePATs, Keyed.get_change, h]
  rfl

theorem PAT.Becomes.of_revoked (p : PAT → Bool) (now : Time) :
    t.Becomes (if p t then { t with revokedAt := t.revokedAt.or (some now) } else t) := by
  split
  · refine ⟨rfl, rfl, fun h => ?_⟩
    obtain ⟨at_, hat⟩ := Option.ne_none_iff_exists'.1 h
    rw [hat]
    exact Option.some_ne_none at_
  · exact ⟨rfl, rfl, id⟩

theorem Query.pat_kept {β : Type} (cfg : Config) (q : Query β) (h : w.pats.get token = some t) :
    ∃ t', (q.exec cfg w).2.pats.get token = some t' ∧ t.Becomes t' := by
  rcases q.pats_cases cfg w with heq | ⟨p, now, heq⟩ | ⟨t', hfresh, heq⟩
  · rw [heq]
    exact ⟨t, h, rfl, rfl, id⟩
  · rw [heq]
    exact ⟨_, World.get_revokePATs p now h, .of_revoked p now⟩
  · have hother : t'.token ≠ token := by
      rintro rfl
      rw [hfresh] at h
      cases h
    rw [heq, Keyed.get_insert, if_neg hother]
    exact ⟨t, h, rfl, rfl, id⟩

theorem Step.pat_kept {β : Type} {o : Op β} {r : β} (hs : Step svc o w r w') (h : w.pats.get token = some t) :
    ∃ t', w'.pats.get token = some t' ∧ t.Becomes t' := by
  have hsame : w' = w → ∃ t', w'.pats.get token = some t' ∧ t.Becomes t' := by
    rintro rfl
    exact ⟨t, h, rfl, rfl, id⟩
  cases o with
  | db q =>
    rcases hs with ⟨-, rfl⟩ | ⟨-, hw⟩
    · exact q.pat_kept svc.cfg h
    · exact hsame hw
  | now => exact hsame hs.2
  | exchange name code => exact hsame hs.2
  | _ => exact hsame hs

theorem World.Later.pat_kept (hlater : w.Later svc w') (h : w.pats.get token = some t) :
    ∃ t', w'.pats.get token = some t' ∧ t.Becomes t' := by
  induction hlater with
  | refl => exact ⟨t, h, rfl, rfl, id⟩
  | call _ hs ih =>
    obtain ⟨t', ht', hbecomes⟩ := ih
    obtain ⟨t'', ht'', hbecomes'⟩ := hs.pat_kept ht'
    exact ⟨t'', ht'', hbecomes'.expiresAt.trans hbecomes.expiresAt, hbecomes'.scope.trans hbecomes.scope,
      fun hrevoked => hbecomes'.revoked (hbecomes.revoked hrevoked)⟩
  | tick now _ ih => exact ih

/-- What resolves is a token that is neither revoked nor expired. -/
theorem World.resolve_live {now : Time} {p : Principal} (h : w.resolve token now = some p) :
    ∃ t, w.pats.get token = some t ∧ t.revokedAt = none ∧ t.expiresAt.all (now < ·) = true ∧ p.scope = t.scope := by
  simp only [resolve] at h
  split at h
  · cases h
  · rename_i t ht
    split at h
    · cases h
    · split at h
      · rename_i hlive
        cases h
        exact ⟨t, ht, hlive.1, hlive.2.1, rfl⟩
      · cases h

end tokens

/-! ## Lifetimes -/

/-- A product as it is held in 64 bits. -/
def held (product : Int) : Int := if product % 2 ^ 64 < 2 ^ 63 then product % 2 ^ 64 else product % 2 ^ 64 - 2 ^ 64

theorem held_le {product : Int} (h : 0 ≤ product) : held product ≤ product := by
  unfold held
  split <;> omega

theorem held_pos {product : Int} : 0 < held product ↔ 0 < product % 2 ^ 64 ∧ product % 2 ^ 64 < 2 ^ 63 := by
  unfold held
  split <;> omega

theorem ttlOf_eq {hours : BitVec 64} (h : 0 < hours.toInt) : ttlOf hours = held (hours.toInt * hour) := by
  have hhour : (BitVec.ofInt 64 hour).toInt = hour := by decide
  rw [ttlOf, if_pos h, BitVec.toInt_mul, hhour, Int.bmod_def, held]
  rfl

/-- The product of 64 bits is at most that of the integers. -/
theorem ttlOf_le {hours : BitVec 64} (h : 0 < hours.toInt) : ttlOf hours ≤ hours.toInt * hour := by
  rw [ttlOf_eq h]
  exact held_le (Int.mul_nonneg h.le (by decide))

theorem ttlOf_pos {hours : BitVec 64} (h : 0 < hours.toInt) : 0 < ttlOf hours ↔
    0 < hours.toInt * hour % 2 ^ 64 ∧ hours.toInt * hour % 2 ^ 64 < 2 ^ 63 := by
  rw [ttlOf_eq h]
  exact held_pos

/-! ## Requests -/

section requests

variable {svc : Service} {isUUID : String → Bool} {quote : String → String} {r : TokenRequest} {w w' : World}

def TokenRequest.token (r : TokenRequest) (now : Time) : PAT :=
  { token := r.newToken, userID := r.p.userID
    expiresAt := if 0 < ttlOf r.ttlHours then some (now + ttlOf r.ttlHours) else none, scope := stored r.scope }

/-- The execution of a request that succeeds. -/
def TokenRequest.Served (svc : Service) (isUUID : String → Bool) (quote : String → String) (r : TokenRequest) (w w' : World) : Prop :=
  Script.Path (Step svc) (r.serve isUUID quote).run w (.ret (.ok ())) w'

theorem step_createPAT {newToken userID : String} {expiresAt : Option Time} {scope : Option CredentialScope}
    (hs : Step svc (.db (.createPAT newToken userID expiresAt scope)) w (.ok ()) w') :
    w'.pats.get newToken = some { token := newToken, userID, expiresAt, scope } := by
  rcases hs with ⟨htold, rfl⟩ | ⟨⟨e, he⟩, -⟩
  · have hok : ((Query.createPAT newToken userID expiresAt scope).exec svc.cfg w).1 = .ok () := by
      rcases htold with h | ⟨e, he⟩
      · exact h.symm
      · cases he
    show ((Query.createPAT newToken userID expiresAt scope).exec svc.cfg w).2.pats.get newToken = _
    simp only [Query.exec] at hok ⊢
    split at hok
    · cases hok
    · rename_i huser
      rw [if_neg huser]
      split at hok
      · rename_i hfresh
        rw [dif_pos hfresh, Keyed.get_insert, if_pos rfl]
      · cases hok
  · cases he

/-- A request that succeeds leaves a row with the scope, and with an expiry where the lifetime is positive. -/
theorem TokenRequest.Served.token (h : r.Served svc isUUID quote w w') : w'.pats.get r.newToken = some (r.token w.clock) := by
  have hreturns : Lib.Proc.Returns (Step svc) (r.serve isUUID quote) (fun _ w' => w'.pats.get r.newToken = some (r.token w.clock)) w := by
    unfold TokenRequest.serve
    split
    · exact Lib.Proc.returns_throw _
    · unfold Service.createPAT
      refine Lib.Proc.returns_ite (fun _ => Lib.Proc.returns_throw _) fun _ => Lib.Proc.returns_ite (fun hpos => ?_) fun hpos => ?_
      · refine Lib.Proc.returns_bind (Lib.Proc.returns_ask fun now w₁ hnow => ?_)
        obtain ⟨rfl, rfl⟩ := hnow
        refine Lib.Proc.returns_attempt fun _ w₂ hs => ?_
        rw [step_createPAT hs, TokenRequest.token, if_pos hpos]
      · refine Lib.Proc.returns_attempt fun _ w₂ hs => ?_
        rw [step_createPAT hs, TokenRequest.token, if_neg hpos]
  exact hreturns.path h

/-- What a token of so many hours promises, whatever is called afterwards. -/
structure Kept (isUUID : String → Bool) (quote : String → String) (hours : BitVec 64) : Prop where
  expires : ∀ svc (r : TokenRequest) w w', r.ttlHours = hours → 0 < hours.toInt → r.Served svc isUUID quote w w' →
    ∀ w'', w'.Later svc w'' → ∀ now, w.clock + hours.toInt * hour ≤ now → w''.resolve r.newToken now = none
  carries : ∀ svc (r : TokenRequest) w w', r.ttlHours = hours → r.Served svc isUUID quote w w' → ∀ w'', w'.Later svc w'' →
    ∀ now p, w''.resolve r.newToken now = some p →
      p.scope.bind (·.workspaceIDs) = r.scope.bind (·.workspaceIDs) ∧ p.scope.bind (·.permissions) = r.scope.bind (·.permissions)
  revoked : ∀ svc userID token at_ w w', Step svc (.db (.revokePAT userID token at_)) w (.ok ()) w' → ∀ w'', w'.Later svc w'' →
    ∀ now, w''.resolve token now = none

theorem stored_lists (scope : Option CredentialScope) : (stored scope).bind (·.workspaceIDs) = scope.bind (·.workspaceIDs) ∧
    (stored scope).bind (·.permissions) = scope.bind (·.permissions) := by
  unfold stored credentialScope
  split
  · rename_i hnone
    rw [hnone.1, hnone.2]
    exact ⟨rfl, rfl⟩
  · exact ⟨rfl, rfl⟩

theorem step_revokePAT {userID token : String} {at_ : Time} (hs : Step svc (.db (.revokePAT userID token at_)) w (.ok ()) w') :
    ∃ t, w'.pats.get token = some t ∧ t.revokedAt ≠ none := by
  rcases hs with ⟨htold, rfl⟩ | ⟨⟨e, he⟩, -⟩
  · have hok : ((Query.revokePAT userID token at_).exec svc.cfg w).1 = .ok () := by
      rcases htold with h | ⟨e, he⟩
      · exact h.symm
      · cases he
    show ∃ t, ((Query.revokePAT userID token at_).exec svc.cfg w).2.pats.get token = some t ∧ t.revokedAt ≠ none
    simp only [Query.exec] at hok ⊢
    split at hok
    · rename_i hlive
      obtain ⟨t, ht⟩ := Option.isSome_iff_exists.1 hlive
      obtain ⟨hmem, hp⟩ := Keyed.mem_of_find ht
      have htoken : t.token = token ∧ t.userID = userID ∧ t.revokedAt = none := of_decide_eq_true hp
      have hget : w.pats.get token = some t := htoken.1 ▸ Keyed.get_of_mem hmem
      rw [if_pos hlive]
      refine ⟨_, World.get_revokePATs _ at_ hget, ?_⟩
      rw [if_pos hp, htoken.2.2]
      exact Option.some_ne_none at_
    · cases hok
  · cases he

theorem scope_kept {w'' : World} {now : Time} {p : Principal} (h : r.Served svc isUUID quote w w') (hlater : w'.Later svc w'')
    (hp : w''.resolve r.newToken now = some p) : p.scope = stored r.scope := by
  obtain ⟨t, ht, hbecomes⟩ := hlater.pat_kept h.token
  obtain ⟨t', ht', -, -, hscope⟩ := World.resolve_live hp
  rw [ht] at ht'
  cases ht'
  exact hscope.trans hbecomes.scope

theorem expiry_kept {w'' : World} {now : Time} (h : r.Served svc isUUID quote w w') (hlater : w'.Later svc w'')
    (hpos : 0 < ttlOf r.ttlHours) (hnow : w.clock + ttlOf r.ttlHours ≤ now) : w''.resolve r.newToken now = none := by
  refine Option.eq_none_iff_forall_ne_some.2 fun p hp => ?_
  obtain ⟨t, ht, hbecomes⟩ := hlater.pat_kept h.token
  obtain ⟨t', ht', -, hexpiry, -⟩ := World.resolve_live hp
  rw [ht] at ht'
  cases ht'
  rw [hbecomes.expiresAt, TokenRequest.token, if_pos hpos] at hexpiry
  exact absurd hnow (not_le.2 (of_decide_eq_true hexpiry))

theorem revoked_kept {w'' : World} {userID token : String} {at_ now : Time}
    (hs : Step svc (.db (.revokePAT userID token at_)) w (.ok ()) w') (hlater : w'.Later svc w'') : w''.resolve token now = none := by
  refine Option.eq_none_iff_forall_ne_some.2 fun p hp => ?_
  obtain ⟨t, ht, hrevoked⟩ := step_revokePAT hs
  obtain ⟨t', ht', hbecomes⟩ := hlater.pat_kept ht
  obtain ⟨t'', ht'', hlive, -, -⟩ := World.resolve_live hp
  rw [ht'] at ht''
  cases ht''
  exact hbecomes.revoked hrevoked hlive

/-- Ann asks for a token of so many hours. -/
def annRequest (hours : BitVec 64) : TokenRequest :=
  { p := annSession.principal ann, newToken := "pat", name := "ci", ttlHours := hours, scope := none }

/-- Without an expiry the token resolves at any time. -/
theorem unbounded (isUUID : String → Bool) (quote : String → String) {hours : BitVec 64} (h : ¬ 0 < ttlOf hours) : ∃ w', (annRequest hours).Served plainService isUUID quote annWorld w' ∧
    ∀ now, w'.resolve "pat" now ≠ none := by
  have hproc : (annRequest hours).serve isUUID quote = db (.createPAT "pat" "ann" none none) := by
    have hname : ¬ ("ci" = "" ∨ 64 < "ci".utf8ByteSize) := by decide
    show Service.createPAT (annSession.principal ann) "pat" "ci" (ttlOf hours) none = _
    rw [Service.createPAT, if_neg hname, if_neg h]
    rfl
  refine ⟨(Query.createPAT "pat" "ann" none none).effect plainService.cfg annWorld (.ok ()), ?_, ?_⟩
  · rw [TokenRequest.Served, hproc]
    exact .step (.inl ⟨.inl rfl, rfl⟩) (.refl _ _)
  · intro now
    exact Option.some_ne_none _

end requests

/-- Tokens of so many hours expire in time exactly if the nanoseconds of a positive number, reduced to 64 bits, are positive.
Revocation and scope hold always. -/
theorem kept_iff (isUUID : String → Bool) (quote : String → String) (hours : BitVec 64) : Kept isUUID quote hours ↔
    (0 < hours.toInt → 0 < hours.toInt * hour % 2 ^ 64 ∧ hours.toInt * hour % 2 ^ 64 < 2 ^ 63) := by
  constructor
  · intro h hpos
    by_contra hwrapped
    rw [← ttlOf_pos hpos] at hwrapped
    obtain ⟨w', hserved, hresolves⟩ := unbounded isUUID quote hwrapped
    exact hresolves _ (h.expires plainService (annRequest hours) annWorld w' rfl hpos hserved w' .refl _ le_rfl)
  · intro h
    refine ⟨?_, ?_, ?_⟩
    · rintro svc r w w' rfl hpos hserved w'' hlater now hnow
      have hle := ttlOf_le hpos
      exact expiry_kept hserved hlater ((ttlOf_pos hpos).2 (h hpos)) ((add_le_add_right hle w.clock).trans hnow)
    · rintro svc r w w' - hserved w'' hlater now p hp
      rw [scope_kept hserved hlater hp]
      exact stored_lists r.scope
    · intro svc userID token at_ w w' hs w'' hlater now
      exact revoked_kept hs hlater

/-- 2562048 hours are more nanoseconds than 63 bits hold, and the token never expires. -/
theorem lives_on : ¬ ∀ isUUID quote hours, Kept isUUID quote hours := by
  intro h
  have hwrapped : ¬ 0 < ttlOf 2562048 := by decide
  obtain ⟨w', hserved, hresolves⟩ := unbounded (fun _ => true) id hwrapped
  exact hresolves _ ((h (fun _ => true) id 2562048).expires plainService _ annWorld w' rfl (by decide) hserved w' .refl _ le_rfl)

end Ploykit.Accounts

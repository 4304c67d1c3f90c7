import Ploykit.Workspace.Store

/-!
# The workspace service

`workspace/app` over the methods of the repository, statement by statement. The hooks
and the audit are left out, and so is the mail that an invitation sends. The ids that the
database draws are arguments, and so is the code of a share link.
-/

namespace Ploykit.Workspace

open Lib Webx
open Authz (Permission RoleKey Authorizer)

/-- What an operation answers with: an error of the API, or one of the errors that the
repository knows by name. -/
inductive Err where
  | api (e : Webx.Error)
  | errDuplicate
  | errNotFound
  | errLastOwner
  deriving DecidableEq, Repr

abbrev Act := Action Stmt PgErr Err

def refuse {α : Type} (e : Webx.Error) : Act α := throw (.app (.api e))

/-- `if err == expected { return e }` -/
def translate {α : Type} (expected : Err) (e : Webx.Error) (m : Act α) : Act α := do
  match ← Action.attempt m with
  | .ok a => return a
  | .error f => if f = .app expected then refuse e else throw f

/-! ## The repository -/

namespace Repo

def mapErr {α : Type} (m : Act α) : Act α := do
  match ← Action.attempt m with
  | .ok a => return a
  | .error f => if f = .store .uniqueViolation then throw (.app .errDuplicate) else throw f

def runInTx {α : Type} (fn : Act α) : Act α :=
  Action.inTx do
    let a ← fn
    Action.commit
    return a

/-- No row has been updated. -/
def notUpdated (ws user : String) : Act Unit := do
  match ← Action.attempt (Action.query (.memberActive ws user)) with
  | .ok true => throw (.app .errLastOwner)
  | _ => throw (.app .errNotFound)

/-- An UPDATE that carries `lastOwnerGuardSQL`. -/
def guarded (ws user : String) (update : Scan → Stmt Nat) : Act Unit := do
  let affected ← mapErr do
    match ← Action.query (.scanGuarded ws user) with
    | none => return 0
    | some scan => Action.query (update scan)
  if affected = 0 then notUpdated ws user else return ()

def updateMemberRole (ws user newRole : String) : Act Unit :=
  guarded ws user fun scan => .updateMemberRole scan ws user newRole

def softRemoveMember (ws user removedBy : String) (now : Time) : Act Unit :=
  guarded ws user fun scan => .softRemoveMember scan ws user removedBy now

def transferOwnershipTx (ws fromUserID toUserID : String) : Act Unit := do
  let promoted ← mapErr do
    match ← Action.query (.scanPromotable ws toUserID) with
    | none => return 0
    | some id => Action.query (.promote id ws toUserID)
  if promoted = 0 then throw (.app .errNotFound)
  else
    let demoted ← mapErr (Action.query (.demote ws fromUserID))
    if demoted = 0 then throw (.app .errNotFound) else return ()

/-- An update that has to find the row it is about. -/
def affecting (s : Stmt Nat) : Act Unit := do
  let affected ← mapErr (Action.query s)
  if affected = 0 then throw (.app .errNotFound) else return ()

/-- The member that an invitation or a share link makes of a user who is none yet. -/
def joinTx (newID ws user : String) (role : AssignedRole) (now : Time) (orNothing : Bool) (counting : Act Unit) :
    Act (Option WorkspaceRow) := do
  let alreadyMember ← Action.query (.memberActive ws user)
  if alreadyMember then Action.query (.getWorkspace ws)
  else
    counting
    mapErr (Action.query (.insertMember newID ws user role now orNothing))
    Action.query (.getWorkspace ws)

def acceptInvitationTx (newID invID user email : String) (now : Time) : Act (Option WorkspaceRow) := do
  match ← Action.query (.acceptInvitation invID user email now) with
  | none => refuse (newNotFound "invitation not found, expired, or already handled")
  | some (ws, role) => joinTx newID ws user role now false (pure ())

def redeemShareLinkTx (newID codeHash user : String) (now : Time) : Act (Option WorkspaceRow) := do
  match ← Action.query (.lockShareLink codeHash now) with
  | none => refuse (newNotFound "share link invalid or exhausted")
  | some (ws, role) => joinTx newID ws user role now true (Action.query (.countUse codeHash))

end Repo

/-! ## Domain rules -/

def assignableRole (role : String) : Bool := role = "admin" ∨ role = "member"

inductive RoleAction where
  | demote
  | remove
  | promote
  deriving DecidableEq, Repr

def lastOwnerProtected (targetRole : Role) (targetIsLastOwner : Bool) (action : RoleAction) : Bool :=
  targetRole = .owner ∧ targetIsLastOwner ∧ action ≠ .promote

def canLeave (role : Role) (isLastOwner : Bool) : Bool := ¬ (role = .owner ∧ isLastOwner)

def hour : Int := 60 * 60 * 1000000000

def inviteTTL : Int := 7 * 24 * hour

def shareCodeLen : Nat := 24

def isHexDigit (c : Char) : Bool := c.isDigit || ('a' ≤ c && c ≤ 'f') || ('A' ≤ c && c ≤ 'F')

def shareCodeOK (code : String) : Bool := code.utf8ByteSize = shareCodeLen ∧ code.toList.all isHexDigit

/-- `\s` of a regular expression -/
def isRegexSpace (c : Char) : Bool := c ∈ ['\t', '\n', '\x0c', '\r', ' ']

/-- One @ with something before it and a dot inside what comes after, and no space. -/
def emailRe (e : List Char) : Bool :=
  let dom := (e.dropWhile (· ≠ '@')).drop 1
  e.all (¬ isRegexSpace ·) ∧ e.head? ≠ some '@' ∧ '@' ∉ dom ∧ '.' ∈ (dom.drop 1).dropLast

/-! ## The service -/

/-- What the service is built with, and the library functions on strings that it uses:
`strings.ToLower` and the hash of share codes. -/
structure Service where
  authz : Authorizer := {}
  toLower : String → String
  hashShareCode : String → String

namespace Service

variable (svc : Service)

def normalizeEmail (email : String) : String := svc.toLower (Strings.trimSpace email)

def emailOK (email : String) : Bool :=
  let e := svc.toLower (Strings.trimSpace email)
  e.utf8ByteSize ≤ 254 ∧ emailRe e.toList

def principalIn (actor : Principal) (ws : String) : Act (Option Principal) :=
  if actor.workspaceID = ws ∧ actor.workspaceID ≠ "" then return some actor
  else if actor.isPlatformAdmin then return some { actor with workspaceID := ws }
  else do
    match ← Action.attempt (Action.query (.getMember ws actor.userID)) with
    | .ok (some me) => return some { actor with workspaceID := ws, role := me.role.name }
    | _ => return none

/-- A lookup that fails is answered by the built-in roles. -/
def loadCustom (key : RoleKey) : Act (Option (List Permission)) := do
  match ← Action.attempt (Action.query (.loadCustom key)) with
  | .ok perms => return perms
  | .error _ => return none

/-- The principal of the actor in the workspace, if it may do this there. -/
def permitted (actor : Principal) (ws : String) (perm : Permission) : Act (Option Principal) := do
  match ← principalIn actor ws with
  | none => return none
  | some p => do
    let ok ← svc.authz.canIn loadCustom p perm
    return if ok then some p else none

def canIn (actor : Principal) (ws : String) (perm : Permission) : Act Bool :=
  Option.isSome <$> svc.permitted actor ws perm

/-- `if !s.canIn(ctx, actor, wsID, perm)` -/
def requiring {α : Type} (actor : Principal) (ws : String) (perm : Permission) (k : Act α) : Act α := do
  let ok ← svc.canIn actor ws perm
  if ok then k else refuse (newForbidden (perm ++ " required"))

/-! ### Members -/

/-- What has to hold before an owner is demoted. -/
def checkDemotion (actor who : Principal) (ws : String) (target : Member) : Act Unit :=
  if target.role = .owner then
    if ¬ actor.isPlatformAdmin ∧ who.role ≠ "owner" then refuse (newForbidden "owner required to demote an owner")
    else do
      let n ← Action.query (.countActiveOwners ws)
      if lastOwnerProtected target.role (n ≤ 1) .demote then refuse (newConflict "cannot demote the last owner")
      else return ()
  else return ()

def updateMemberRole (actor : Principal) (ws targetUserID newRole : String) : Act Unit := do
  match ← svc.permitted actor ws "members:write" with
  | none => refuse (newForbidden "members:write required")
  | some who =>
    if ¬ assignableRole newRole then refuse (newValidation "role not assignable")
    else do
      match ← Action.query (.getMember ws targetUserID) with
      | none => refuse (newNotFound "member not found")
      | some target =>
        if target.userID = actor.userID then refuse (newForbidden "cannot change own role")
        else do
          checkDemotion actor who ws target
          translate .errLastOwner (newConflict "cannot demote the last owner")
            (Repo.updateMemberRole ws targetUserID newRole)

/-- What has to hold before an owner is removed. -/
def checkRemoval (ws : String) (target : Member) : Act Unit :=
  if target.role = .owner then do
    let n ← Action.query (.countActiveOwners ws)
    if lastOwnerProtected target.role (n ≤ 1) .remove then refuse (newConflict "cannot remove the last owner")
    else return ()
  else return ()

def removeMember (actor : Principal) (ws targetUserID : String) : Act Unit :=
  svc.requiring actor ws "members:remove" do
    match ← Action.query (.getMember ws targetUserID) with
    | none => refuse (newNotFound "member not found")
    | some target =>
      if target.userID = actor.userID then refuse (newForbidden "use leave instead")
      else do
        checkRemoval ws target
        let now ← Action.query .now
        translate .errLastOwner (newConflict "cannot remove the last owner")
          (Repo.softRemoveMember ws targetUserID actor.userID now)

def leave (p : Principal) (ws : String) : Act Unit := do
  match ← Action.query (.getMember ws p.userID) with
  | none => refuse (newNotFound "not a member")
  | some me => do
    let n ← Action.query (.countActiveOwners ws)
    if ¬ canLeave me.role (n ≤ 1) then
      refuse (newConflict "last owner cannot leave; transfer or delete the workspace")
    else do
      let now ← Action.query .now
      translate .errLastOwner (newConflict "last owner cannot leave; transfer or delete the workspace")
        (Repo.softRemoveMember ws p.userID p.userID now)

/-! ### Ownership -/

/-- The owner that a transfer takes the ownership from. -/
def transferFrom (actor : Principal) (ws : String) : Act String := do
  let me ← Action.query (.getMember ws actor.userID)
  if me.any fun me => me.role = .owner then return actor.userID
  else if ¬ actor.isPlatformAdmin then refuse (newForbidden "owner required to transfer ownership")
  else do
    match ← Action.query (.oldestActiveOwner ws) with
    | none => refuse (newConflict "workspace has no active owner to transfer from")
    | some owner => return owner.userID

def transferOwnership (actor : Principal) (ws newOwnerUserID : String) : Act Unit := do
  let fromUserID ← transferFrom actor ws
  match ← Action.query (.getMemberUserStatus ws newOwnerUserID) with
  | none => refuse (newNotFound "member not found")
  | some (target, userStatus) =>
    if target.userID = fromUserID then refuse (newConflict "target is already the owner")
    else if target.role = .owner then refuse (newConflict "target is already an owner")
    else if userStatus ≠ .active then refuse (newConflict "cannot transfer ownership to a disabled user")
    else
      translate .errNotFound (newConflict "ownership state changed concurrently; retry")
        (Repo.runInTx (Repo.transferOwnershipTx ws fromUserID newOwnerUserID))

/-! ### Invitations -/

def invite (actor : Principal) (ws rawEmail role newID : String) : Act InvitationRow :=
  svc.requiring actor ws "members:invite" do
    let email := svc.normalizeEmail rawEmail
    if ¬ svc.emailOK email then refuse (newValidation "invalid email")
    else if ¬ assignableRole role then refuse (newValidation "role not assignable")
    else do
      let pending ← Repo.mapErr (Action.query (.hasPendingInvitation ws email))
      if pending then refuse (newConflict "invitation already pending")
      else do
        let isMember ← Repo.mapErr (Action.query (.isMemberByEmail ws email))
        if isMember then refuse (newConflict "already a member")
        else do
          let now ← Action.query .now
          translate .errDuplicate (newConflict "invitation already pending")
            (Repo.mapErr (Action.query (.createInvitation newID ws email role actor.userID (now + inviteTTL))))

def revokeInvitation (actor : Principal) (ws invID : String) : Act Unit :=
  svc.requiring actor ws "members:invite" do
    translate .errNotFound (newNotFound "invitation not found") (Repo.affecting (.revokeInvitation ws invID))

def declineInvitation (p : Principal) (invID : String) : Act Unit :=
  translate .errNotFound (newNotFound "invitation not found") (Repo.affecting (.declineInvitation invID p.email))

def acceptInvitation (p : Principal) (invID newID : String) : Act (Option WorkspaceRow) := do
  let now ← Action.query .now
  Repo.runInTx (Repo.acceptInvitationTx newID invID p.userID p.email now)

/-! ### Share links -/

def createShareLink (actor : Principal) (ws role : String) (maxUses ttl : Int) (code newID : String) :
    Act (ShareLinkRow × String) :=
  svc.requiring actor ws "members:invite" do
    if ¬ assignableRole role then refuse (newValidation "role not assignable")
    else if maxUses < 1 ∨ 1000 < maxUses then refuse (newValidation "max_uses must be 1-1000")
    else if ttl ≤ 0 ∨ 30 * 24 * hour < ttl then refuse (newValidation "ttl must be (0, 30d]")
    else do
      let now ← Action.query .now
      let link ← Repo.mapErr (Action.query (.createShareLink newID ws (svc.hashShareCode code)
        (String.ofList (code.toList.take 8)) role actor.userID maxUses (now + ttl)))
      return (link, code)

def revokeShareLink (actor : Principal) (ws linkID : String) : Act Unit :=
  svc.requiring actor ws "members:invite" do
    let now ← Action.query .now
    translate .errNotFound (newNotFound "share link not found") (Repo.affecting (.revokeShareLink ws linkID now))

def redeemShareLink (p : Principal) (code newID : String) : Act (Option WorkspaceRow) :=
  if ¬ shareCodeOK code then refuse (newValidation "invalid share code")
  else do
    let now ← Action.query .now
    Repo.runInTx (Repo.redeemShareLinkTx newID (svc.hashShareCode code) p.userID now)

end Service

/-! ## Requests -/

inductive Call where
  | updateMemberRole (actor : Principal) (ws targetUserID newRole : String)
  | removeMember (actor : Principal) (ws targetUserID : String)
  | leave (actor : Principal) (ws : String)
  | transferOwnership (actor : Principal) (ws newOwnerUserID : String)
  | invite (actor : Principal) (ws rawEmail role newID : String)
  | revokeInvitation (actor : Principal) (ws invID : String)
  | declineInvitation (actor : Principal) (invID : String)
  | acceptInvitation (actor : Principal) (invID newID : String)
  | createShareLink (actor : Principal) (ws role : String) (maxUses ttl : Int) (code newID : String)
  | revokeShareLink (actor : Principal) (ws linkID : String)
  | redeemShareLink (actor : Principal) (code newID : String)
  deriving DecidableEq, Repr

namespace Call

def exec (svc : Service) : Call → Act Unit
  | updateMemberRole actor ws targetUserID newRole => svc.updateMemberRole actor ws targetUserID newRole
  | removeMember actor ws targetUserID => svc.removeMember actor ws targetUserID
  | leave actor ws => Service.leave actor ws
  | transferOwnership actor ws newOwnerUserID => Service.transferOwnership actor ws newOwnerUserID
  | invite actor ws rawEmail role newID => (fun _ => ()) <$> svc.invite actor ws rawEmail role newID
  | revokeInvitation actor ws invID => svc.revokeInvitation actor ws invID
  | declineInvitation actor invID => Service.declineInvitation actor invID
  | acceptInvitation actor invID newID => (fun _ => ()) <$> Service.acceptInvitation actor invID newID
  | createShareLink actor ws role maxUses ttl code newID =>
    (fun _ => ()) <$> svc.createShareLink actor ws role maxUses ttl code newID
  | revokeShareLink actor ws linkID => svc.revokeShareLink actor ws linkID
  | redeemShareLink actor code newID => (fun _ => ()) <$> svc.redeemShareLink actor code newID

/-- The program of a session that makes the request. -/
def program (svc : Service) (c : Call) : Script (TxOp Stmt PgErr) (Except (Failure PgErr Err) Unit) :=
  (c.exec svc).run.bind .ret

end Call

/-- What sessions run. -/
def Program (svc : Service) (m : Script (TxOp Stmt PgErr) (Except (Failure PgErr Err) Unit)) : Prop :=
  ∃ c : Call, m = c.program svc

end Ploykit.Workspace

import Ploykit.Lib.Invariant
import Ploykit.Workspace.Schema

/-!
# Workspace statements

One constructor of `Stmt` for each statement of `workspace/adapters/pgrepo`, except that
an UPDATE that reads other rows too is two: it finds its row, and reads the others, in
the snapshot taken when it starts (`scanGuarded`, `scanPromotable`), while the row that
it updates is the latest one, checked again after any wait for its lock.

A statement on its own has its locks and commits at one moment: nothing that it has
locked can change between the two.
-/

namespace Ploykit.Workspace

open Lib

/-- A failure of the store. -/
inductive PgErr where
  | uniqueViolation
  | checkViolation
  | foreignKeyViolation
  | unavailable
  deriving DecidableEq, Repr

/-! ## What is read -/

structure Member where
  userID : String
  email : String
  displayName : String
  role : Role
  createdAt : Time
  deriving DecidableEq, Repr

namespace Db

def activeOwners (db : Db) (ws : String) : List MemberRow :=
  db.members.rows.filter fun m => m.workspaceID = ws ∧ m.role = .owner ∧ m.isActive

/-- The count in `lastOwnerGuardSQL`. -/
def otherOwners (db : Db) (ws user : String) : Nat := ((db.activeOwners ws).filter fun o => o.userID ≠ user).length

/-- A member row joined with its user. -/
def joined (db : Db) (m : MemberRow) : Option (Member × UserStatus) :=
  (db.users m.userID).map fun u => (⟨m.userID, u.email, u.displayName, m.role, m.createdAt⟩, u.status)

def member (db : Db) (ws user : String) : Option (Member × UserStatus) := (db.members.active ws user).bind db.joined

/-- An invitation of the address is pending; `uq_invitation_pending_ws_email` allows only one. -/
def hasPending (db : Db) (ws email : String) : Bool :=
  db.invitations.rows.any fun i => i.workspaceID = ws ∧ i.email = email ∧ i.status = .pending

end Db

/-- `lastOwnerGuardSQL`, over the count of the snapshot. -/
def lastOwnerGuard (role : Role) (otherOwners : Nat) : Bool := role ≠ .owner ∨ 0 < otherOwners

/-- The row that a guarded update has found, and the owners that it has counted. -/
structure Scan where
  id : String
  otherOwners : Nat
  deriving DecidableEq, Repr

inductive Stmt : Type → Type
  | now : Stmt Time
  | loadCustom (key : Authz.RoleKey) : Stmt (Option (List Authz.Permission))
  | getMember (ws user : String) : Stmt (Option Member)
  | getMemberUserStatus (ws user : String) : Stmt (Option (Member × UserStatus))
  | countActiveOwners (ws : String) : Stmt Nat
  | oldestActiveOwner (ws : String) : Stmt (Option Member)
  | memberActive (ws user : String) : Stmt Bool
  | scanGuarded (ws user : String) : Stmt (Option Scan)
  | updateMemberRole (scan : Scan) (ws user role : String) : Stmt Nat
  | softRemoveMember (scan : Scan) (ws user removedBy : String) (now : Time) : Stmt Nat
  | scanPromotable (ws user : String) : Stmt (Option String)
  | promote (id ws user : String) : Stmt Nat
  | demote (ws user : String) : Stmt Nat
  | getWorkspace (id : String) : Stmt (Option WorkspaceRow)
  | isMemberByEmail (ws email : String) : Stmt Bool
  | hasPendingInvitation (ws email : String) : Stmt Bool
  /-- The id is drawn by the database. -/
  | createInvitation (id ws email role createdBy : String) (expiresAt : Time) : Stmt InvitationRow
  | revokeInvitation (ws id : String) : Stmt Nat
  | declineInvitation (id email : String) : Stmt Nat
  | acceptInvitation (id user email : String) (now : Time) : Stmt (Option (String × AssignedRole))
  | insertMember (id ws user : String) (role : AssignedRole) (now : Time) (orNothing : Bool) : Stmt Unit
  | createShareLink (id ws codeHash codePrefix role createdBy : String) (maxUses : Int) (expiresAt : Time) :
    Stmt ShareLinkRow
  | revokeShareLink (ws id : String) (now : Time) : Stmt Nat
  /-- SELECT .. FOR UPDATE -/
  | lockShareLink (codeHash : String) (now : Time) : Stmt (Option (String × AssignedRole))
  | countUse (codeHash : String) : Stmt Unit

/-! ## Writes -/

inductive Resource where
  | member (id : String)
  | memberKey (ws user : String)
  | invitation (id : String)
  | shareLink (id : String)
  deriving DecidableEq, Repr

inductive Write where
  | setRole (id : String) (role : Role)
  | removeMember (id ws user : String) (now : Time) (removedBy : Option String)
  | insertMember (m : MemberRow)
  | insertInvitation (i : InvitationRow)
  | acceptInvitation (id user : String) (now : Time)
  | closeInvitation (id : String) (status : InvitationStatus)
  | insertShareLink (l : ShareLinkRow)
  | countUse (id : String)
  | revokeShareLink (id : String) (now : Time)
  deriving DecidableEq, Repr

def touches : Write → List Resource
  | .setRole id _ => [.member id]
  | .removeMember id ws user _ _ => [.member id, .memberKey ws user]
  | .insertMember m => [.member m.id, .memberKey m.workspaceID m.userID]
  | .insertInvitation i => [.invitation i.id]
  | .acceptInvitation id _ _ => [.invitation id]
  | .closeInvitation id _ => [.invitation id]
  | .insertShareLink l => [.shareLink l.id]
  | .countUse id => [.shareLink id]
  | .revokeShareLink id _ => [.shareLink id]

namespace MemberRow

def withRole (role : Role) (m : MemberRow) : MemberRow := { m with role := role }

def remove (ws user : String) (now : Time) (removedBy : Option String) (m : MemberRow) : MemberRow :=
  if m.key = (ws, user) then { m with removedAt := some now, removedBy := removedBy } else m

theorem keeps_withRole (role : Role) : Keeps (withRole role) := ⟨fun _ => rfl, fun _ => rfl, fun _ h => h⟩

theorem keeps_remove (ws user : String) (now : Time) (removedBy : Option String) :
    Keeps (remove ws user now removedBy) := by
  refine ⟨fun m => ?_, fun m => ?_, fun m h => ?_⟩ <;> unfold remove at *
  · split <;> rfl
  · split <;> rfl
  · split at h
    · cases h
    · exact h

end MemberRow

def InvitationRow.accept (user : String) (now : Time) (i : InvitationRow) : InvitationRow :=
  { i with status := .accepted, acceptedBy := some user, acceptedAt := some now }

def InvitationRow.close (status : InvitationStatus) (i : InvitationRow) : InvitationRow := { i with status := status }

def ShareLinkRow.countUse (l : ShareLinkRow) : ShareLinkRow := { l with uses := l.uses + 1 }

def ShareLinkRow.revoke (now : Time) (l : ShareLinkRow) : ShareLinkRow := { l with revokedAt := some now }

namespace Db

def updateInvitation (db : Db) (id : String) (f : InvitationRow → InvitationRow) (hf : ∀ i, (f i).id = i.id) : Db :=
  { db with invitations := db.invitations.update [id] f hf }

def updateShareLink (db : Db) (id : String) (f : ShareLinkRow → ShareLinkRow) (hf : ∀ l, (f l).id = l.id) : Db :=
  { db with shareLinks := db.shareLinks.update [id] f hf }

theorem invitation_update_ne (db : Db) {id id' : String} {f : InvitationRow → InvitationRow} (hf : ∀ i, (f i).id = i.id)
    (h : id' ≠ id) : (db.updateInvitation id f hf).invitations.get id' = db.invitations.get id' :=
  Keyed.get_update_ne hf h

theorem shareLink_update_ne (db : Db) {id id' : String} {f : ShareLinkRow → ShareLinkRow} (hf : ∀ l, (f l).id = l.id)
    (h : id' ≠ id) : (db.updateShareLink id f hf).shareLinks.get id' = db.shareLinks.get id' :=
  Keyed.get_update_ne hf h

end Db

def apply (db : Db) : Write → Db
  | .setRole id role => { db with members := db.members.change id _ (MemberRow.keeps_withRole role) }
  | .removeMember id ws user now removedBy =>
    { db with members := db.members.change id _ (MemberRow.keeps_remove ws user now removedBy) }
  | .insertMember m => { db with members := db.members.insert m }
  | .insertInvitation i =>
    if h : db.invitations.get i.id = none then { db with invitations := db.invitations.insert i h } else db
  | .acceptInvitation id user now => db.updateInvitation id (.accept user now) fun _ => rfl
  | .closeInvitation id status => db.updateInvitation id (.close status) fun _ => rfl
  | .insertShareLink l =>
    if h : db.shareLinks.get l.id = none then { db with shareLinks := db.shareLinks.insert l h } else db
  | .countUse id => db.updateShareLink id ShareLinkRow.countUse fun _ => rfl
  | .revokeShareLink id now => db.updateShareLink id (.revoke now) fun _ => rfl

/-- The databases agree on the row, or on whether the key is taken. -/
def same : Resource → Db → Db → Prop
  | .member id, db, db' => db.members.get id = db'.members.get id
  | .memberKey ws user, db, db' => (db.members.active ws user).isSome = (db'.members.active ws user).isSome
  | .invitation id, db, db' => db.invitations.get id = db'.invitations.get id
  | .shareLink id, db, db' => db.shareLinks.get id = db'.shareLinks.get id

/-! ## Outcomes -/

/-- A statement that only reads. -/
def reads {β : Type} (value : β) : Outcome Resource Write β := ⟨value, [], []⟩

/-- A statement with one write, which locks what it touches. -/
def writes {β : Type} (value : β) (w : Write) : Outcome Resource Write β := ⟨value, touches w, [w]⟩

def eval : {β : Type} → Stmt β → (Resource → Bool) → Db → Except PgErr (Outcome Resource Write β)
  | _, .now, _, db => .ok (reads db.clock)
  | _, .loadCustom key, _, db => .ok (reads (db.overrides key))
  | _, .getMember ws user, _, db => .ok (reads ((db.member ws user).map Prod.fst))
  | _, .getMemberUserStatus ws user, _, db => .ok (reads (db.member ws user))
  | _, .countActiveOwners ws, _, db => .ok (reads (db.activeOwners ws).length)
  | _, .oldestActiveOwner ws, _, db =>
    .ok (reads (Table.first (fun a b => a.createdAt < b.createdAt) ((db.activeOwners ws).filterMap fun m =>
      (db.joined m).map Prod.fst)))
  | _, .memberActive ws user, _, db => .ok (reads (db.members.active ws user).isSome)
  | _, .scanGuarded ws user, _, db =>
    let others := db.otherOwners ws user
    .ok (reads (((db.members.active ws user).filter fun m => lastOwnerGuard m.role others).map fun m => ⟨m.id, others⟩))
  | _, .updateMemberRole scan ws user role, _, db =>
    match (db.members.get scan.id).filter fun m => m.activeAt ws user ∧ lastOwnerGuard m.role scan.otherOwners with
    | none => .ok (reads 0)
    | some m =>
      match Role.parse role with
      | none => .error .checkViolation
      | some role => .ok (writes 1 (.setRole m.id role))
  | _, .softRemoveMember scan ws user removedBy now, _, db =>
    match (db.members.get scan.id).filter fun m => m.activeAt ws user ∧ lastOwnerGuard m.role scan.otherOwners with
    | none => .ok (reads 0)
    | some m => .ok (writes 1 (.removeMember m.id ws user now (if removedBy = "" then none else some removedBy)))
  | _, .scanPromotable ws user, _, db =>
    .ok (reads (((db.members.active ws user).filter fun m =>
      m.role ≠ .owner ∧ (db.users m.userID).any fun u => u.status = .active).map MemberRow.id))
  | _, .promote id ws user, _, db =>
    match (db.members.get id).filter fun m => m.activeAt ws user ∧ m.role ≠ .owner with
    | none => .ok (reads 0)
    | some m => .ok (writes 1 (.setRole m.id .owner))
  | _, .demote ws user, _, db =>
    match (db.members.active ws user).filter fun m => m.role = .owner with
    | none => .ok (reads 0)
    | some m => .ok (writes 1 (.setRole m.id .member))
  | _, .getWorkspace id, _, db => .ok (reads (db.workspaces.get id))
  | _, .isMemberByEmail ws email, _, db =>
    .ok (reads (db.members.rows.any fun m =>
      m.workspaceID = ws ∧ m.isActive ∧ (db.users m.userID).any fun u => u.email = email))
  | _, .hasPendingInvitation ws email, _, db =>
    .ok (reads (db.invitations.rows.any fun i =>
      i.workspaceID = ws ∧ i.email = email ∧ i.status = .pending ∧ db.clock < i.expiresAt))
  | _, .createInvitation id ws email role createdBy expiresAt, _, db =>
    match AssignedRole.parse role with
    | none => .error .checkViolation
    | some role =>
      let i : InvitationRow := { id, workspaceID := ws, email, role, expiresAt, createdBy, createdAt := db.clock }
      if db.hasPending ws email ∨ (db.invitations.get id).isSome then .error .uniqueViolation
      else if (db.workspaces.get ws).isNone ∨ (db.users createdBy).isNone then .error .foreignKeyViolation
      else .ok (writes i (.insertInvitation i))
  | _, .revokeInvitation ws id, _, db =>
    match (db.invitations.get id).filter fun i => i.workspaceID = ws ∧ i.status = .pending with
    | none => .ok (reads 0)
    | some i => .ok (writes 1 (.closeInvitation i.id .revoked))
  | _, .declineInvitation id email, _, db =>
    match (db.invitations.get id).filter fun i => i.email = email ∧ i.status = .pending with
    | none => .ok (reads 0)
    | some i => .ok (writes 1 (.closeInvitation i.id .declined))
  | _, .acceptInvitation id user email now, _, db =>
    match (db.invitations.get id).filter fun i => i.email = email ∧ i.status = .pending ∧ now < i.expiresAt with
    | none => .ok (reads none)
    | some i => .ok (writes (some (i.workspaceID, i.role)) (.acceptInvitation i.id user now))
  | _, .insertMember id ws user role now orNothing, _, db =>
    let m : MemberRow := { id, workspaceID := ws, userID := user, role := role.1, createdAt := now }
    if db.members.Free m then
      if (db.workspaces.get ws).isNone ∨ (db.users user).isNone then .error .foreignKeyViolation
      else .ok (writes () (.insertMember m))
    else if orNothing then .ok (reads ())
    else .error .uniqueViolation
  | _, .createShareLink id ws codeHash codePrefix role createdBy maxUses expiresAt, _, db =>
    match AssignedRole.parse role with
    | none => .error .checkViolation
    | some role =>
      let l : ShareLinkRow :=
        { id, workspaceID := ws, codeHash, codePrefix, role, maxUses, expiresAt, createdBy, createdAt := db.clock }
      if maxUses ≤ 0 then .error .checkViolation
      else if (db.shareLinks.rows.any fun l => l.codeHash = codeHash) ∨ (db.shareLinks.get id).isSome then
        .error .uniqueViolation
      else if (db.workspaces.get ws).isNone ∨ (db.users createdBy).isNone then .error .foreignKeyViolation
      else .ok (writes l (.insertShareLink l))
  | _, .revokeShareLink ws id now, _, db =>
    match (db.shareLinks.get id).filter fun l => l.workspaceID = ws ∧ l.revokedAt = none with
    | none => .ok (reads 0)
    | some l => .ok (writes 1 (.revokeShareLink l.id now))
  | _, .lockShareLink codeHash now, _, db =>
    match db.shareLinks.find fun l =>
      l.codeHash = codeHash ∧ l.revokedAt = none ∧ now < l.expiresAt ∧ l.uses < l.maxUses with
    | none => .ok (reads none)
    | some l => .ok ⟨some (l.workspaceID, l.role), [.shareLink l.id], []⟩
  | _, .countUse codeHash, _, db =>
    match db.shareLinks.find fun l => l.codeHash = codeHash with
    | none => .ok (reads ())
    | some l => if l.maxUses < l.uses + 1 then .error .checkViolation else .ok (writes () (.countUse l.id))

/-- The tables as a store. -/
def store : Store Stmt Db Resource Write PgErr := ⟨eval, apply⟩

/-! ## What a statement writes -/

/-- The statement may write `w`: everything that holds where it does. -/
def Effect (db : Db) : {β : Type} → Stmt β → Write → Prop
  | _, .updateMemberRole scan ws user role, w => ∃ m r, db.members.get scan.id = some m ∧ m.activeAt ws user ∧
      lastOwnerGuard m.role scan.otherOwners ∧ Role.parse role = some r ∧ w = .setRole m.id r
  | _, .softRemoveMember scan ws user _ now, w => ∃ m by', db.members.get scan.id = some m ∧ m.activeAt ws user ∧
      lastOwnerGuard m.role scan.otherOwners ∧ w = .removeMember m.id ws user now by'
  | _, .promote id ws user, w => ∃ m, db.members.get id = some m ∧ m.activeAt ws user ∧ m.role ≠ .owner ∧
      w = .setRole m.id .owner
  | _, .demote ws user, w => ∃ m, db.members.active ws user = some m ∧ m.role = .owner ∧ w = .setRole m.id .member
  | _, .createInvitation _ ws email role _ _, w => ∃ i, db.invitations.get i.id = none ∧ db.hasPending ws email = false ∧
      i.workspaceID = ws ∧ i.email = email ∧ AssignedRole.parse role = some i.role ∧ i.status = .pending ∧
      w = .insertInvitation i
  | _, .revokeInvitation ws id, w => ∃ i, db.invitations.get id = some i ∧ i.workspaceID = ws ∧ i.status = .pending ∧
      w = .closeInvitation i.id .revoked
  | _, .declineInvitation id email, w => ∃ i, db.invitations.get id = some i ∧ i.email = email ∧ i.status = .pending ∧
      w = .closeInvitation i.id .declined
  | _, .acceptInvitation id user email now, w => ∃ i, db.invitations.get id = some i ∧ i.email = email ∧
      i.status = .pending ∧ now < i.expiresAt ∧ w = .acceptInvitation i.id user now
  | _, .insertMember id ws user role now _, w => ∃ m, db.members.Free m ∧
      m = { id, workspaceID := ws, userID := user, role := role.1, createdAt := now } ∧ w = .insertMember m
  | _, .createShareLink _ ws codeHash _ role _ maxUses expiresAt, w => ∃ l, db.shareLinks.get l.id = none ∧
      (∀ l' ∈ db.shareLinks.rows, l'.codeHash ≠ codeHash) ∧ l.workspaceID = ws ∧ l.codeHash = codeHash ∧
      AssignedRole.parse role = some l.role ∧ l.uses = 0 ∧ l.maxUses = maxUses ∧ 0 < maxUses ∧
      l.expiresAt = expiresAt ∧ l.revokedAt = none ∧ w = .insertShareLink l
  | _, .revokeShareLink ws id now, w => ∃ l, db.shareLinks.get id = some l ∧ l.workspaceID = ws ∧ l.revokedAt = none ∧
      w = .revokeShareLink l.id now
  | _, .countUse codeHash, w => ∃ l ∈ db.shareLinks.rows, l.codeHash = codeHash ∧ l.uses + 1 ≤ l.maxUses ∧
      w = .countUse l.id
  | _, _, _ => False

/-- A statement has at most one effect, on rows that it locks. -/
theorem eval_effect {β : Type} {s : Stmt β} {held : Resource → Bool} {db : Db} {o : Outcome Resource Write β}
    (h : eval s held db = .ok o) : o.writes = [] ∨ ∃ w, o.writes = [w] ∧ o.locks = touches w ∧ Effect db s w := by
  cases s with
  | updateMemberRole scan ws user role =>
    simp only [eval] at h
    split at h
    · cases h
      exact .inl rfl
    · rename_i m hfound
      obtain ⟨hm, hcheck⟩ := Option.filter_eq_some_iff.1 hfound
      obtain ⟨hat, hguard⟩ := of_decide_eq_true hcheck
      split at h
      · cases h
      · cases h
        exact .inr ⟨_, rfl, rfl, _, _, hm, hat, hguard, ‹_›, rfl⟩
  | softRemoveMember scan ws user removedBy now =>
    simp only [eval] at h
    split at h
    · cases h
      exact .inl rfl
    · rename_i m hfound
      cases h
      obtain ⟨hm, hcheck⟩ := Option.filter_eq_some_iff.1 hfound
      obtain ⟨hat, hguard⟩ := of_decide_eq_true hcheck
      exact .inr ⟨_, rfl, rfl, _, _, hm, hat, hguard, rfl⟩
  | promote id ws user =>
    simp only [eval] at h
    split at h
    · cases h
      exact .inl rfl
    · rename_i m hfound
      cases h
      obtain ⟨hm, hcheck⟩ := Option.filter_eq_some_iff.1 hfound
      obtain ⟨hat, hrole⟩ := of_decide_eq_true hcheck
      exact .inr ⟨_, rfl, rfl, _, hm, hat, hrole, rfl⟩
  | demote ws user =>
    simp only [eval] at h
    split at h
    · cases h
      exact .inl rfl
    · rename_i m hfound
      cases h
      obtain ⟨hm, hrole⟩ := Option.filter_eq_some_iff.1 hfound
      exact .inr ⟨_, rfl, rfl, _, hm, of_decide_eq_true hrole, rfl⟩
  | createInvitation id ws email role createdBy expiresAt =>
    simp only [eval] at h
    split at h
    · cases h
    rename_i hrole
    split at h
    · cases h
    rename_i hfree
    split at h
    · cases h
    cases h
    obtain ⟨hpending, hid⟩ := not_or.1 hfree
    refine .inr ⟨_, rfl, rfl, _, ?_, Bool.eq_false_iff.2 hpending, rfl, rfl, hrole, rfl, rfl⟩
    simpa using hid
  | revokeInvitation ws id =>
    simp only [eval] at h
    split at h
    · cases h
      exact .inl rfl
    · rename_i i hfound
      cases h
      obtain ⟨hi, hcheck⟩ := Option.filter_eq_some_iff.1 hfound
      obtain ⟨hws, hstatus⟩ := of_decide_eq_true hcheck
      exact .inr ⟨_, rfl, rfl, _, hi, hws, hstatus, rfl⟩
  | declineInvitation id email =>
    simp only [eval] at h
    split at h
    · cases h
      exact .inl rfl
    · rename_i i hfound
      cases h
      obtain ⟨hi, hcheck⟩ := Option.filter_eq_some_iff.1 hfound
      obtain ⟨hemail, hstatus⟩ := of_decide_eq_true hcheck
      exact .inr ⟨_, rfl, rfl, _, hi, hemail, hstatus, rfl⟩
  | acceptInvitation id user email now =>
    simp only [eval] at h
    split at h
    · cases h
      exact .inl rfl
    · rename_i i hfound
      cases h
      obtain ⟨hi, hcheck⟩ := Option.filter_eq_some_iff.1 hfound
      obtain ⟨hemail, hstatus, hexpires⟩ := of_decide_eq_true hcheck
      exact .inr ⟨_, rfl, rfl, _, hi, hemail, hstatus, hexpires, rfl⟩
  | insertMember id ws user role now orNothing =>
    simp only [eval] at h
    split at h
    · rename_i hfree
      split at h
      · cases h
      · cases h
        exact .inr ⟨_, rfl, rfl, _, hfree, rfl, rfl⟩
    · split at h
      · cases h
        exact .inl rfl
      · cases h
  | createShareLink id ws codeHash codePrefix role createdBy maxUses expiresAt =>
    simp only [eval] at h
    split at h
    · cases h
    rename_i hrole
    split at h
    · cases h
    rename_i hmax
    split at h
    · cases h
    rename_i hfree
    split at h
    · cases h
    cases h
    obtain ⟨hcode, hid⟩ := not_or.1 hfree
    refine .inr ⟨_, rfl, rfl, _, ?_, ?_, rfl, rfl, hrole, rfl, rfl, not_le.1 hmax, rfl, rfl, rfl⟩
    · simpa using hid
    · simpa using hcode
  | revokeShareLink ws id now =>
    simp only [eval] at h
    split at h
    · cases h
      exact .inl rfl
    · rename_i l hfound
      cases h
      obtain ⟨hl, hcheck⟩ := Option.filter_eq_some_iff.1 hfound
      obtain ⟨hws, hlive⟩ := of_decide_eq_true hcheck
      exact .inr ⟨_, rfl, rfl, _, hl, hws, hlive, rfl⟩
  | lockShareLink codeHash now =>
    simp only [eval] at h
    split at h <;> cases h <;> exact .inl rfl
  | countUse codeHash =>
    simp only [eval] at h
    split at h
    · cases h
      exact .inl rfl
    · rename_i l hfound
      obtain ⟨hl, hcode⟩ := Keyed.mem_of_find hfound
      split at h
      · cases h
      · rename_i huses
        cases h
        exact .inr ⟨_, rfl, rfl, _, hl, of_decide_eq_true hcode, not_lt.1 huses, rfl⟩
  | _ =>
    cases h
    exact .inl rfl

theorem eval_covered {β : Type} (s : Stmt β) (held : Resource → Bool) (db : Db) (o : Outcome Resource Write β)
    (h : eval s held db = .ok o) : ∀ w ∈ o.writes, ∀ r ∈ touches w, r ∈ o.locks := by
  intro w hw r hr
  rcases eval_effect h with hnone | ⟨w', hwrites, hlocks, -⟩
  · rw [hnone] at hw
    exact (List.not_mem_nil hw).elim
  · rw [hwrites] at hw
    cases List.mem_singleton.1 hw
    exact hlocks ▸ hr

/-! ## Frame -/

theorem same_refl (r : Resource) (db : Db) : same r db db := by
  cases r with
  | _ => rfl

theorem same_trans (r : Resource) (a b c : Db) (h : same r a b) (h' : same r b c) : same r a c := by
  cases r with
  | _ => exact Eq.trans h h'

/-- A write leaves the rows and keys alone that it does not touch. -/
theorem same_apply (r : Resource) (w : Write) (db : Db) (h : r ∉ touches w) : same r db (apply db w) := by
  cases w with
  | setRole id role =>
    cases r with
    | member id' => exact (Members.get_change_ne (MemberRow.keeps_withRole role) fun heq : id' = id => h (heq ▸ List.mem_singleton_self _)).symm
    | memberKey ws user =>
      have hactive := @Members.active_change db.members id ws user _ (MemberRow.keeps_withRole role) fun _ => rfl
      exact (congrArg Option.isSome hactive).trans Option.isSome_map |>.symm
    | _ => rfl
  | removeMember id ws user now removedBy =>
    obtain ⟨hid, hkey⟩ := not_or.1 fun hr => h (List.mem_cons.2 (hr.imp_right List.mem_singleton.2))
    cases r with
    | member id' => exact (Members.get_change_ne (MemberRow.keeps_remove ws user now removedBy) fun heq : id' = id => hid (heq ▸ rfl)).symm
    | memberKey ws' user' =>
      have hactive := @Members.active_change db.members id ws' user' _ (MemberRow.keeps_remove ws user now removedBy)
        fun m => by
          unfold MemberRow.remove
          split
          · rename_i hrow
            have hother : m.key ≠ (ws', user') := fun heq => hkey (by cases hrow.symm.trans heq; rfl)
            exact (decide_eq_false fun hat => hother hat.2).trans (decide_eq_false fun hat => hother hat.2).symm
          · rfl
      exact (congrArg Option.isSome hactive).trans Option.isSome_map |>.symm
    | _ => rfl
  | insertMember m =>
    obtain ⟨hid, hkey⟩ := not_or.1 fun hr => h (List.mem_cons.2 (hr.imp_right List.mem_singleton.2))
    cases r with
    | member id' => exact (Members.get_insert_ne fun heq : id' = m.id => hid (heq ▸ rfl)).symm
    | memberKey ws user =>
      refine congrArg Option.isSome (Members.active_insert_ne fun heq => hkey ?_).symm
      obtain ⟨rfl, rfl⟩ := Prod.mk.inj heq
      rfl
    | _ => rfl
  | insertInvitation i =>
    simp only [apply]
    split
    · rename_i hfree
      cases r with
      | invitation id =>
        have hget : (db.invitations.insert i hfree).get id = _ := Keyed.get_insert
        exact (hget.trans (if_neg fun heq : i.id = id => h (heq ▸ List.mem_singleton_self _))).symm
      | _ => rfl
    · exact same_refl r db
  | acceptInvitation id user now =>
    cases r with
    | invitation id' =>
      have hother : id' ≠ id := fun heq => h (heq ▸ List.mem_singleton_self _)
      exact (db.invitation_update_ne (f := .accept user now) (fun _ => rfl) hother).symm
    | _ => rfl
  | closeInvitation id status =>
    cases r with
    | invitation id' =>
      have hother : id' ≠ id := fun heq => h (heq ▸ List.mem_singleton_self _)
      exact (db.invitation_update_ne (f := .close status) (fun _ => rfl) hother).symm
    | _ => rfl
  | insertShareLink l =>
    simp only [apply]
    split
    · rename_i hfree
      cases r with
      | shareLink id =>
        have hget : (db.shareLinks.insert l hfree).get id = _ := Keyed.get_insert
        exact (hget.trans (if_neg fun heq : l.id = id => h (heq ▸ List.mem_singleton_self _))).symm
      | _ => rfl
    · exact same_refl r db
  | countUse id =>
    cases r with
    | shareLink id' =>
      have hother : id' ≠ id := fun heq => h (heq ▸ List.mem_singleton_self _)
      exact (db.shareLink_update_ne (f := ShareLinkRow.countUse) (fun _ => rfl) hother).symm
    | _ => rfl
  | revokeShareLink id now =>
    cases r with
    | shareLink id' =>
      have hother : id' ≠ id := fun heq => h (heq ▸ List.mem_singleton_self _)
      exact (db.shareLink_update_ne (f := .revoke now) (fun _ => rfl) hother).symm
    | _ => rfl

/-- Users, overridden roles and the clock are not the sessions'. -/
structure Env (db db' : Db) : Prop where
  workspaces : db'.workspaces = db.workspaces
  members : db'.members = db.members
  invitations : db'.invitations = db.invitations
  shareLinks : db'.shareLinks = db.shareLinks
  clock : db.clock ≤ db'.clock

theorem framed : Protocol.Framed store touches same Env where
  refl := same_refl
  trans := same_trans
  frame := same_apply
  covered := eval_covered
  env r db db' he := by
    cases r with
    | member id => exact congrArg (Members.get · id) he.members.symm
    | memberKey ws user => exact congrArg (fun t : Members => (t.active ws user).isSome) he.members.symm
    | invitation id => exact congrArg (Keyed.get · id) he.invitations.symm
    | shareLink id => exact congrArg (Keyed.get · id) he.shareLinks.symm

end Ploykit.Workspace

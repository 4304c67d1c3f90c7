import Ploykit.Authz.Authorizer

/-!
# Workspace tables

The rows of `workspace`, `member`, `workspace_invitation` and `workspace_share_link`,
with what is read of users and of overridden roles. `Members` carries the unique index
`uq_member_active`: no user has two active rows in a workspace.
-/

namespace Ploykit.Workspace

open Lib

/-- Nanoseconds. -/
abbrev Time := Int

/-! ## Roles -/

inductive Role where
  | owner
  | admin
  | member
  deriving DecidableEq, Repr

namespace Role

def name : Role → String
  | owner => "owner"
  | admin => "admin"
  | member => "member"

/-- CHECK (role IN ('owner', 'admin', 'member')) -/
def parse (role : String) : Option Role := [owner, admin, member].find? fun r => r.name = role

end Role

/-- CHECK (role IN ('admin', 'member')), of invitations and share links -/
abbrev AssignedRole := { r : Role // r ≠ .owner }

def AssignedRole.parse (role : String) : Option AssignedRole :=
  [⟨.admin, by decide⟩, ⟨.member, by decide⟩].find? fun r : AssignedRole => r.1.name = role

/-! ## Rows -/

inductive UserStatus where
  | active
  | disabled
  deriving DecidableEq, Repr

structure UserRow where
  email : String
  displayName : String := ""
  status : UserStatus := .active
  deriving DecidableEq, Repr

structure WorkspaceRow where
  id : String
  slug : String
  name : String
  planCode : String := "free"
  createdAt : Time
  deriving DecidableEq, Repr

structure MemberRow where
  id : String
  workspaceID : String
  userID : String
  role : Role
  createdAt : Time
  removedAt : Option Time := none
  removedBy : Option String := none
  deriving DecidableEq, Repr

inductive InvitationStatus where
  | pending
  | accepted
  | declined
  | revoked
  deriving DecidableEq, Repr

structure InvitationRow where
  id : String
  workspaceID : String
  email : String
  role : AssignedRole
  status : InvitationStatus := .pending
  expiresAt : Time
  createdBy : String
  acceptedBy : Option String := none
  acceptedAt : Option Time := none
  createdAt : Time
  deriving DecidableEq, Repr

structure ShareLinkRow where
  id : String
  workspaceID : String
  codeHash : String
  codePrefix : String
  role : AssignedRole
  maxUses : Int
  uses : Int := 0
  expiresAt : Time
  revokedAt : Option Time := none
  createdBy : String
  createdAt : Time
  deriving DecidableEq, Repr

/-! ## Members -/

namespace MemberRow

def isActive (m : MemberRow) : Bool := m.removedAt = none

def key (m : MemberRow) : String × String := (m.workspaceID, m.userID)

/-- The row is the active one of the user in the workspace. -/
def activeAt (ws user : String) (m : MemberRow) : Bool := m.isActive ∧ m.key = (ws, user)

/-- What an update of member rows may not do: take over another row or come back. -/
structure Keeps (f : MemberRow → MemberRow) : Prop where
  id : ∀ m, (f m).id = m.id
  key : ∀ m, (f m).key = m.key
  active : ∀ m, (f m).isActive → m.isActive

end MemberRow

/-- Members with `uq_member_active`. -/
structure Members extends Keyed MemberRow.id where
  unique : ((rows.filter MemberRow.isActive).map MemberRow.key).Nodup

namespace Members

def empty : Members := ⟨.empty, List.nodup_nil⟩

def get (t : Members) (id : String) : Option MemberRow := t.toKeyed.get id

def active (t : Members) (ws user : String) : Option MemberRow := t.rows.find? (MemberRow.activeAt ws user)

/-- Change the row with the id. -/
def change (t : Members) (id : String) (f : MemberRow → MemberRow) (hf : MemberRow.Keeps f) : Members where
  toKeyed := t.update [id] f hf.id
  unique := by
    have hrows : (t.update [id] f hf.id).rows = t.rows.map fun m => if m.id ∈ [id] then f m else m := rfl
    have hkey : (MemberRow.key ∘ fun m => if m.id ∈ [id] then f m else m) = MemberRow.key := by
      funext m
      simp only [Function.comp_apply]
      split
      · exact hf.key m
      · rfl
    rw [hrows, List.filter_map, List.map_map, hkey]
    refine t.unique.sublist ((List.monotone_filter_right _ fun m hm => ?_).map _)
    simp only [Function.comp_apply] at hm
    split at hm
    · exact hf.active m hm
    · exact hm

/-- No row has the id, and none is active for the user if the new one is. -/
def Free (t : Members) (m : MemberRow) : Prop := t.get m.id = none ∧ (m.isActive → t.active m.workspaceID m.userID = none)

instance (t : Members) (m : MemberRow) : Decidable (t.Free m) := inferInstanceAs (Decidable (_ ∧ _))

theorem key_free {t : Members} {ws user : String} (h : t.active ws user = none) :
    (ws, user) ∉ (t.rows.filter MemberRow.isActive).map MemberRow.key := by
  intro hmem
  obtain ⟨m, hm, hkey⟩ := List.mem_map.1 hmem
  obtain ⟨hrow, hactive⟩ := List.mem_filter.1 hm
  have hnot := List.find?_eq_none.1 h m hrow
  exact hnot (decide_eq_true ⟨hactive, hkey⟩)

/-- Insert the row, where the indexes let it in. -/
def insert (t : Members) (m : MemberRow) : Members :=
  if h : t.Free m then
    { toKeyed := t.toKeyed.insert m h.1
      unique := by
        have hrows : (t.toKeyed.insert m h.1).rows = t.rows ++ [m] := rfl
        rw [hrows, List.filter_append, List.map_append]
        refine List.Nodup.append t.unique ?_ ?_
        · cases hm : m.isActive <;> simp [hm]
        · intro k hk hk'
          obtain ⟨m', hm', rfl⟩ := List.mem_map.1 hk'
          obtain ⟨hsingle, hactive⟩ := List.mem_filter.1 hm'
          cases List.mem_singleton.1 hsingle
          exact key_free (h.2 hactive) hk }
  else t

variable {t : Members} {m m' : MemberRow} {id ws user : String} {f : MemberRow → MemberRow} {hf : MemberRow.Keeps f}

theorem active_eq_some : t.active ws user = some m ↔ m ∈ t.rows ∧ m.activeAt ws user := by
  refine ⟨fun h => ⟨List.mem_of_find?_eq_some h, List.find?_some h⟩, fun ⟨hrow, hat⟩ => ?_⟩
  cases hfound : t.active ws user with
  | none => exact absurd hat (List.find?_eq_none.1 hfound m hrow)
  | some m' =>
    have hat' : m'.activeAt ws user := List.find?_some (p := MemberRow.activeAt ws user) hfound
    obtain ⟨hactive', hkey'⟩ := of_decide_eq_true hat'
    obtain ⟨hactive, hkey⟩ := of_decide_eq_true hat
    have hmem' := List.mem_filter.2 ⟨List.mem_of_find?_eq_some hfound, hactive'⟩
    have hmem := List.mem_filter.2 ⟨hrow, hactive⟩
    rw [List.inj_on_of_nodup_map t.unique hmem' hmem (hkey'.trans hkey.symm)]

theorem mem_change (hf : MemberRow.Keeps f) : m ∈ (t.change id f hf).rows ↔ ∃ m' ∈ t.rows, (if m'.id = id then f m' else m') = m := by
  have hmem : m ∈ (t.update [id] f hf.id).rows ↔ _ := Keyed.mem_update
  simp only [List.mem_singleton] at hmem
  exact hmem

theorem mem_insert : m' ∈ (t.insert m).rows ↔ m' ∈ t.rows ∨ t.Free m ∧ m' = m := by
  unfold insert
  split
  · rename_i hfree
    simp [Keyed.insert, hfree]
  · rename_i htaken
    simp [htaken]

theorem get_change_ne (hf : MemberRow.Keeps f) {id' : String} (h : id' ≠ id) : (t.change id f hf).get id' = t.get id' :=
  Keyed.get_update_ne hf.id h

/-- A change that does not end a membership finds the same rows. -/
theorem active_change (hf : MemberRow.Keeps f) (hat : ∀ m, (f m).activeAt ws user = m.activeAt ws user) :
    (t.change id f hf).active ws user = (t.active ws user).map fun m => if m.id = id then f m else m := by
  have hfind : (t.update [id] f hf.id).find (MemberRow.activeAt ws user) = _ := Keyed.find_update hf.id fun m _ _ => hat m
  simp only [List.mem_singleton] at hfind
  exact hfind

theorem get_insert_ne (h : id ≠ m.id) : (t.insert m).get id = t.get id := by
  unfold insert
  split
  · rename_i hfree
    have hget : (t.toKeyed.insert m hfree.1).get id = _ := Keyed.get_insert
    exact hget.trans (if_neg h.symm)
  · rfl

theorem active_insert_ne (h : m.key ≠ (ws, user)) : (t.insert m).active ws user = t.active ws user := by
  have hnot : m.activeAt ws user = false := decide_eq_false fun hat => h hat.2
  unfold insert
  split
  · have happend : (t.rows ++ [m]).find? (MemberRow.activeAt ws user) = t.rows.find? (MemberRow.activeAt ws user) := by
      rw [List.find?_append, List.find?_cons_of_neg (by simp [hnot]), List.find?_nil, Option.or_none]
    exact happend
  · rfl

end Members

/-! ## The database -/

structure Db where
  workspaces : Keyed WorkspaceRow.id
  members : Members
  invitations : Keyed InvitationRow.id
  shareLinks : Keyed ShareLinkRow.id
  /-- Users are another package's. -/
  users : String → Option UserRow
  /-- What the authorizer is answered about overridden roles. -/
  overrides : Authz.RoleKey → Option (List Authz.Permission)
  clock : Time

end Ploykit.Workspace

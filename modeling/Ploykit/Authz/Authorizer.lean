import Mathlib.Data.List.Dedup
import Ploykit.Lib.Keyed
import Ploykit.Platform.Webx

/-!
# The authorizer

`authz` over whatever answers for the roles that a workspace has overridden. The cache
in front of it is part of that answer. The table `workspace_role` is read by
`authz/adapters/pgrepo` row by row, and by the workspace service all rows of a workspace
at once. Its permissions are JSON, in which more can stand than the service writes.
-/

namespace Ploykit.Authz

open Lib Webx

universe u

abbrev Permission := String

def domainOf (p : Permission) : String := String.ofList (p.toList.takeWhile (· ≠ ':'))

/-! ## Roles -/

abbrev RoleSet := String → Option (List Permission)

namespace RoleSet

def new : RoleSet := fun _ => none

def set (r : RoleSet) (role : String) (perms : List Permission) : RoleSet := Function.update r role (some perms)

/-- The role holds the permission or the wildcard of its domain. -/
def has (r : RoleSet) (role : String) (perm : Permission) : Bool :=
  match r role with
  | none => false
  | some set => perm ∈ set || (domainOf perm ++ ":*") ∈ set

end RoleSet

def defaultPerms : List Permission :=
  ["workspace:read", "workspace:update", "workspace:delete",
    "members:read", "members:invite", "members:write", "members:remove", "invites:read",
    "roles:manage",
    "billing:read", "billing:manage",
    "webhooks:read", "webhooks:manage",
    "notifications:read",
    "audit:read",
    "usage:read"]

/-- What the admin role does not carry. -/
def adminDenied : List Permission := ["workspace:delete", "roles:manage"]

def defaultRoles : RoleSet :=
  ((RoleSet.new.set "owner" defaultPerms).set "admin" (defaultPerms.filter (· ∉ adminDenied))).set "member"
    ["workspace:read", "members:read", "billing:read", "webhooks:read", "notifications:read", "usage:read",
      "invites:read"]

/-! ## Decisions -/

structure RoleKey where
  workspaceID : String
  projectID : String
  role : String
  deriving DecidableEq, Repr

/-- The role that counts is the one in the project, if the principal has one. -/
def roleKey (p : Principal) : RoleKey :=
  match p.project with
  | none => ⟨p.workspaceID, "", p.role⟩
  | some project => ⟨p.workspaceID, project.id, project.role⟩

structure Authorizer where
  builtin : RoleSet := defaultRoles
  /-- There is a provider of overridden roles. -/
  provider : Bool := true

/-- `CanIn`, with the lookup of the roles that are overridden. -/
def Authorizer.canIn {m : Type → Type u} [Monad m] (a : Authorizer)
    (loadCustom : RoleKey → m (Option (List Permission))) (p : Principal) (perm : Permission) : m Bool :=
  if p.workspaceID = "" then return false
  else if ¬ (CredentialScope.allowsWorkspace p.scope p.workspaceID ∧ CredentialScope.allowsPermission p.scope perm) then
    return false
  else if p.isPlatformAdmin then return true
  else if (roleKey p).role = "" then return false
  else if a.provider then do
    match ← loadCustom (roleKey p) with
    | some perms => return (RoleSet.new.set (roleKey p).role perms).has (roleKey p).role perm
    | none => return a.builtin.has (roleKey p).role perm
  else return a.builtin.has (roleKey p).role perm

/-! ## Overridden roles -/

/-! ## The vocabulary -/

/-- Without duplicates, in lexical order. -/
def normalizePerms (perms : List Permission) : List Permission := perms.dedup.mergeSort fun a b => a ≤ b

@[simp] theorem mem_normalizePerms {perms : List Permission} {p : Permission} : p ∈ normalizePerms perms ↔ p ∈ perms := by
  rw [normalizePerms, List.mem_mergeSort, List.mem_dedup]

structure Catalog where
  registered : List Permission

namespace Catalog

def has (c : Catalog) (p : Permission) : Bool := p ∈ c.registered

def list (c : Catalog) : List Permission := normalizePerms c.registered

end Catalog

def defaultCatalog : Catalog := ⟨defaultPerms⟩

/-- The permissions of a role in lexical order, none of an unknown one. -/
def RoleSet.perms (r : RoleSet) (role : String) : List Permission := normalizePerms ((r role).getD [])

/-- The set holds the permission or the wildcard of its domain. -/
def covers (set : List Permission) (perm : Permission) : Bool := perm ∈ set || (domainOf perm ++ ":*") ∈ set

theorem covers_congr {set set' : List Permission} (h : ∀ p, p ∈ set ↔ p ∈ set') (perm : Permission) :
    covers set perm = covers set' perm := by
  simp only [covers, h]

theorem RoleSet.has_eq (r : RoleSet) (role : String) (perm : Permission) :
    r.has role perm = covers ((r role).getD []) perm := by
  unfold has
  cases r role with
  | none => simp [covers]
  | some set => rfl

/-! ## Rows -/

inductive LookupErr where
  | unavailable
  | malformed
  deriving DecidableEq, Repr

/-- What may stand for a permission in a row. -/
inductive PermJSON where
  | string (s : String)
  | null
  | other
  deriving DecidableEq, Repr

/-- What may stand in a row. -/
inductive PermsJSON where
  | array (elems : List PermJSON)
  | null
  | other
  deriving DecidableEq, Repr

/-- A string is decoded as itself, and `null` as the empty one. -/
def PermJSON.decode : PermJSON → Except LookupErr Permission
  | string s => .ok s
  | null => .ok ""
  | other => .error .malformed

/-- The slice of permissions, nil of `null`. -/
def PermsJSON.decode : PermsJSON → Except LookupErr (Option (List Permission))
  | array elems => some <$> elems.mapM PermJSON.decode
  | null => .ok none
  | other => .error .malformed

structure WorkspaceRoleRow where
  workspaceID : String
  role : String
  perms : PermsJSON
  deriving DecidableEq, Repr

def WorkspaceRoleRow.key (row : WorkspaceRoleRow) : String × String := (row.workspaceID, row.role)

abbrev RoleTable := Keyed WorkspaceRoleRow.key

/-- What is stored for permissions. -/
def permsJSON (perms : List Permission) : PermsJSON := .array (perms.map .string)

namespace RoleTable

variable (t : RoleTable)

def permsFor (key : RoleKey) : Except LookupErr (Option (List Permission)) :=
  if key.projectID ≠ "" then .ok none
  else
    match t.get (key.workspaceID, key.role) with
    | none => .ok none
    | some row => row.perms.decode

/-- One row that cannot be decoded fails the list. -/
def listRoleOverrides (workspaceID : String) : Except LookupErr (List (String × List Permission)) :=
  (t.rows.filter fun row => row.workspaceID = workspaceID).mapM fun row => do
    let perms ← row.perms.decode
    return (row.role, perms.getD [])

def upsertRolePerms (workspaceID role : String) (perms : List Permission) : RoleTable :=
  let row : WorkspaceRoleRow := { workspaceID, role, perms := permsJSON perms }
  if h : t.get row.key = none then t.insert row h
  else t.update [row.key] (fun old => { old with perms := row.perms }) fun _ => rfl

def deleteRolePerms (workspaceID role : String) : RoleTable := t.erase (workspaceID, role)

end RoleTable

/-! ## Effective permissions -/

def roleEffective (defaults : List Permission) (overrides : List (String × List Permission)) (role : String) :
    List Permission × Bool :=
  match overrides.lookup role with
  | some perms => (normalizePerms perms, true)
  | none => (defaults, false)

def second : Int := 1000000000

/-- What an authorizer that looks overridden roles up is built with. -/
structure CachedAuthorizer where
  builtin : RoleSet := defaultRoles
  catalog : Catalog := defaultCatalog
  cacheTTL : Int := 30 * second

namespace CachedAuthorizer

variable (a : CachedAuthorizer)

def authorizer : Authorizer := { builtin := a.builtin }

def builtinPerms (role : String) : List Permission := a.builtin.perms role

/-- What is displayed of a role. -/
def effectivePerms (t : RoleTable) (workspaceID role : String) : Except LookupErr (List Permission) :=
  if role = "owner" then .ok a.catalog.list
  else do
    let overrides ← t.listRoleOverrides workspaceID
    return (roleEffective (a.builtinPerms role) overrides role).1

end CachedAuthorizer

end Ploykit.Authz

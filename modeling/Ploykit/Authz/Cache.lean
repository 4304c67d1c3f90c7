import Ploykit.Authz.Authorizer
import Ploykit.Lib.Schedule

/-!
# The cache of overridden roles

Decisions read an entry, and where there is none they look the row up and store what they
have found. A write changes the row and then drops the entries of the workspace. Each of
these is one step of a process whose other goroutines go on meanwhile.

How often a row has been written is counted beside the world, and so is what each
session has seen of it. Nothing reads these counts.
-/

namespace Ploykit.Authz

open Lib Webx

abbrev Time := Int
abbrev Duration := Int

/-- The key of a row. -/
abbrev RowKey := String × String

def RoleKey.row (key : RoleKey) : RowKey := (key.workspaceID, key.role)

/-! ## The world -/

/-- Without permissions the entry says that there is no row. -/
structure CacheEntry where
  perms : Option (List Permission)
  expiredAt : Time
  /-- The writes to the row when this was what it says. -/
  version : Nat

/-- The permissions that a decision goes by, with the writes to the row when they were what it
says, and those that had been returned when the decision began. -/
structure Used where
  key : RoleKey
  perms : Option (List Permission)
  version : Nat
  began : Nat

/-- What a session has seen of the counts. -/
structure Seen where
  looked : Nat := 0
  wrote : Option (RowKey × Nat) := none
  began : RowKey → Nat := fun _ => 0
  used : Option Used := none

structure World where
  table : RoleTable
  cache : RoleKey → Option CacheEntry
  clock : Time
  /-- How often the row has been written. -/
  writes : RowKey → Nat
  /-- The last of these writes whose request has dropped the entries, after which it returns. -/
  settled : RowKey → Nat
  seen : Nat → Seen

namespace World

variable (w : World) (i : Nat)

def see (f : Seen → Seen) : World := { w with seen := Function.update w.seen i (f (w.seen i)) }

/-- The entry while it lasts. -/
def cached (key : RoleKey) : Option CacheEntry := (w.cache key).filter fun e => w.clock < e.expiredAt

/-- A decision of the session begins. -/
def begin (key : RoleKey) : World :=
  w.see i fun s => { s with
    began := w.settled
    used := (w.cached key).map fun e => { key, perms := e.perms, version := e.version, began := w.settled key.row } }

/-- The session has looked the row up. -/
def look (key : RoleKey) (perms : Option (List Permission)) : World :=
  w.see i fun s => { s with
    looked := w.writes key.row
    used := some { key, perms, version := w.writes key.row, began := s.began key.row } }

/-- The session stores what it has looked up, which may be what the row still says. -/
def put (key : RoleKey) (perms : Option (List Permission)) (ttl : Duration) : World :=
  let version := if w.table.permsFor key = .ok perms then w.writes key.row else (w.seen i).looked
  { w with cache := Function.update w.cache key (some { perms, expiredAt := w.clock + ttl, version }) }

/-- The session writes the row. -/
def write (row : RowKey) (table : RoleTable) : World :=
  { w.see i fun s => { s with wrote := some (row, w.writes row + 1) } with
    table := table, writes := Function.update w.writes row (w.writes row + 1) }

/-- The entries of the workspace, or all, are dropped. -/
def invalidate (workspaceID : String) : World :=
  { w.see i fun s => { s with wrote := none } with
    cache := fun key => if workspaceID = "" ∨ key.workspaceID = workspaceID then none else w.cache key
    settled :=
      match (w.seen i).wrote with
      | none => w.settled
      | some (row, n) => if row.1 = workspaceID then Function.update w.settled row (max (w.settled row) n) else w.settled }

end World

/-! ## Calls -/

inductive Op : Type → Type
  | cacheGet (key : RoleKey) : Op (Option (Option (List Permission)))
  | permsFor (key : RoleKey) : Op (Except LookupErr (Option (List Permission)))
  | cachePut (key : RoleKey) (perms : Option (List Permission)) (ttl : Duration) : Op Unit
  /-- The actor is a member of the workspace. -/
  | principalIn (actor : Principal) (workspaceID : String) : Op Bool
  | upsertRolePerms (workspaceID role : String) (perms : List Permission) : Op (Except LookupErr Unit)
  | deleteRolePerms (workspaceID role : String) : Op (Except LookupErr Unit)
  | invalidateCache (workspaceID : String) : Op Unit

/-- One call of session `i`. A lookup may fail, and a write that fails may have been made. -/
def Step (i : Nat) : {β : Type} → Op β → World → β → World → Prop
  | _, .cacheGet key, w, r, w' => r = (w.cached key).map CacheEntry.perms ∧ w' = w.begin i key
  | _, .permsFor key, w, r, w' => ((∃ err, r = .error err) ∧ w' = w) ∨
      ∃ perms, w.table.permsFor key = .ok perms ∧ r = .ok perms ∧ w' = w.look i key perms
  | _, .cachePut key perms ttl, w, _, w' => w' = w.put i key perms ttl
  | _, .principalIn _ _, w, _, w' => w' = w
  | _, .upsertRolePerms workspaceID role perms, w, r, w' => ((∃ err, r = .error err) ∧ w' = w) ∨
      w' = w.write i (workspaceID, role) (w.table.upsertRolePerms workspaceID role perms)
  | _, .deleteRolePerms workspaceID role, w, r, w' => ((∃ err, r = .error err) ∧ w' = w) ∨
      w' = w.write i (workspaceID, role) (w.table.deleteRolePerms workspaceID role)
  | _, .invalidateCache workspaceID, w, _, w' => w' = w.invalidate i workspaceID

def machine : Machine Op World where
  step i := Step i
  abort _ w := w
  env w w' := ∃ clock, w.clock ≤ clock ∧ w' = { w with clock := clock }

/-- An execution of a call, where nothing fails but what cannot be decoded. -/
def World.exec (i : Nat) : {β : Type} → Op β → World → β × World
  | _, .cacheGet key, w => ((w.cached key).map CacheEntry.perms, w.begin i key)
  | _, .permsFor key, w =>
    match w.table.permsFor key with
    | .ok perms => (.ok perms, w.look i key perms)
    | .error err => (.error err, w)
  | _, .cachePut key perms ttl, w => ((), w.put i key perms ttl)
  | _, .principalIn _ _, w => (true, w)
  | _, .upsertRolePerms workspaceID role perms, w =>
    (.ok (), w.write i (workspaceID, role) (w.table.upsertRolePerms workspaceID role perms))
  | _, .deleteRolePerms workspaceID role, w =>
    (.ok (), w.write i (workspaceID, role) (w.table.deleteRolePerms workspaceID role))
  | _, .invalidateCache workspaceID, w => ((), w.invalidate i workspaceID)

theorem World.exec_step (i : Nat) {β : Type} (o : Op β) (w : World) : Step i o w (w.exec i o).1 (w.exec i o).2 := by
  cases o with
  | cacheGet key => exact ⟨rfl, rfl⟩
  | permsFor key =>
    simp only [exec]
    split
    · rename_i perms hperms
      exact .inr ⟨perms, hperms, rfl, rfl⟩
    · rename_i err _
      exact .inl ⟨⟨err, rfl⟩, rfl⟩
  | upsertRolePerms workspaceID role perms => exact .inr rfl
  | deleteRolePerms workspaceID role => exact .inr rfl
  | _ => rfl

/-! ## Decisions -/

abbrev Proc := Script Op

def negCacheTTL : Duration := 5 * second

namespace CachedAuthorizer

variable (a : CachedAuthorizer)

def loadCustom (key : RoleKey) : Proc (Option (List Permission)) := do
  match ← Script.op (.cacheGet key) with
  | some perms => return perms
  | none =>
    match ← Script.op (.permsFor key) with
    | .error _ => return none
    | .ok none => do
      if 0 < a.cacheTTL then Script.op (.cachePut key none (min negCacheTTL a.cacheTTL))
      return none
    | .ok (some perms) => do
      if 0 < a.cacheTTL then Script.op (.cachePut key (some perms) a.cacheTTL)
      return some perms

def canIn (p : Principal) (perm : Permission) : Proc Bool := a.authorizer.canIn a.loadCustom p perm

end CachedAuthorizer

/-! ## Writes -/

inductive Refusal where
  | forbidden (text : String)
  | validation (text : String)
  | store (err : LookupErr)
  deriving DecidableEq, Repr

structure RoleConfig where
  role : String
  perms : List Permission
  overridden : Bool
  defaults : List Permission
  deriving DecidableEq, Repr

def roleConfigurable (role : String) : Bool := role = "admin" ∨ role = "member"

def notConfigurable : Refusal := .validation "role is not configurable (owner permissions are immutable)"

/-- `principalIn`, if the actor is not a platform administrator -/
def memberOf (actor : Principal) (workspaceID : String) : Proc Bool :=
  if actor.isPlatformAdmin then return true else Script.op (.principalIn actor workspaceID)

namespace CachedAuthorizer

variable (a : CachedAuthorizer)

def setRolePerms (actor : Principal) (workspaceID role : String) (perms : List Permission) :
    Proc (Except Refusal RoleConfig) := do
  let isMember ← memberOf actor workspaceID
  if ¬ isMember then return .error (.forbidden "not a workspace member")
  else if ¬ roleConfigurable role then return .error notConfigurable
  else
    let unknown := perms.filter fun perm => ¬ a.catalog.has perm
    if unknown ≠ [] then
      return .error (.validation ("unknown permissions (not in the registered catalog): " ++ ", ".intercalate unknown))
    else
      let normalized := normalizePerms perms
      match ← Script.op (.upsertRolePerms workspaceID role normalized) with
      | .error err => return .error (.store err)
      | .ok () => do
        Script.op (.invalidateCache workspaceID)
        return .ok { role, perms := normalized, overridden := true, defaults := a.builtinPerms role }

end CachedAuthorizer

def resetRolePerms (actor : Principal) (workspaceID role : String) : Proc (Except Refusal Unit) := do
  let isMember ← memberOf actor workspaceID
  if ¬ isMember then return .error (.forbidden "not a workspace member")
  else if ¬ roleConfigurable role then return .error notConfigurable
  else
    match ← Script.op (.deleteRolePerms workspaceID role) with
    | .error err => return .error (.store err)
    | .ok () => do
      Script.op (.invalidateCache workspaceID)
      return .ok ()

/-- What the goroutines of the process run. -/
inductive Program (a : CachedAuthorizer) : Proc Unit → Prop
  | canIn (p : Principal) (perm : Permission) : Program a (a.canIn p perm >>= fun _ => pure ())
  | setRolePerms (actor : Principal) (workspaceID role : String) (perms : List Permission) :
    Program a (a.setRolePerms actor workspaceID role perms >>= fun _ => pure ())
  | resetRolePerms (actor : Principal) (workspaceID role : String) :
    Program a (resetRolePerms actor workspaceID role >>= fun _ => pure ())
  | invalidateCache (workspaceID : String) : Program a (Script.op (.invalidateCache workspaceID))

/-! ### A small world -/

def plainAuthorizer : CachedAuthorizer := {}

/-- Members may do what the built-in role may. -/
def freshWorld : World where
  table := .empty
  cache _ := none
  clock := 0
  writes _ := 0
  settled _ := 0
  seen _ := {}

def ann : Principal := { userID := "ann", workspaceID := "ws", role := "owner" }

def eve : Principal := { userID := "eve", workspaceID := "ws", role := "member" }

end Ploykit.Authz

import Ploykit.Authz.Cache
import Ploykit.Lib.Checks

/-!
# Displayed and enforced permissions

Decisions read one row, and fall back on the built-in set where it has no list. What is
displayed reads all rows of the workspace, and shows owners the whole catalog.
-/

namespace Ploykit.Authz

open Lib Webx

/-! ## What is compared -/

/-- The cache says of the role what the table says. -/
def World.Fresh (w : World) (key : RoleKey) : Prop := ∀ e, w.cached key = some e → w.table.permsFor key = .ok e.perms

/-- A member of the workspace in the role: no administrator of the platform, and with neither a scope nor a project. -/
structure IsMember (p : Principal) (workspaceID role : String) : Prop where
  workspace : p.workspaceID = workspaceID ∧ workspaceID ≠ ""
  role : p.role = role
  plain : p.scope = none ∧ p.project = none ∧ p.isPlatformAdmin = false

/-- What a decision answers that is not interrupted. -/
def CachedAuthorizer.decides (a : CachedAuthorizer) (w : World) (p : Principal) (perm : Permission) : Bool :=
  ((a.canIn p perm).run (World.exec 0) w).1

/-- The permission is displayed. -/
def CachedAuthorizer.Displays (a : CachedAuthorizer) (t : RoleTable) (workspaceID role : String) (perm : Permission) : Prop :=
  ∃ set, a.effectivePerms t workspaceID role = .ok set ∧ covers set perm

/-! ## Rows -/

/-- The list of permissions in the role's row, if it holds one. -/
def RoleTable.storedList (t : RoleTable) (workspaceID role : String) : Option (List Permission) :=
  (t.get (workspaceID, role)).bind fun row => row.perms.decode.toOption.join

/-- The list of the role's row, otherwise the built-in set. -/
def CachedAuthorizer.ruling (a : CachedAuthorizer) (t : RoleTable) (workspaceID role : String) : List Permission :=
  (t.storedList workspaceID role).getD ((a.builtin role).getD [])

/-- Each row of the workspace can be decoded. -/
def RoleTable.Readable (t : RoleTable) (workspaceID : String) : Prop :=
  ∀ row ∈ t.rows, row.workspaceID = workspaceID → ∃ perms, row.perms.decode = .ok perms

/-- Where a role is displayed as it is enforced. An owner has to have the permission. Of another role
the rows have to be readable, and its own not null, unless it has not. -/
def Agrees (a : CachedAuthorizer) (t : RoleTable) (workspaceID role : String) (perm : Permission) : Prop :=
  (role = "owner" ∧ covers (a.ruling t workspaceID role) perm) ∨ (role ≠ "owner" ∧
    ((t.Readable workspaceID ∧ ∀ row, t.get (workspaceID, role) = some row → row.perms ≠ .null) ∨
      ¬ covers (a.ruling t workspaceID role) perm))

/-! ## Decisions -/

section decisions

variable {a : CachedAuthorizer} {w : World} {p : Principal} {workspaceID role : String} {perm : Permission}

/-- A fresh cache does not matter. -/
theorem loadCustom_run {key : RoleKey} (h : w.Fresh key) :
    ((a.loadCustom key).run (World.exec 0) w).1 = (w.table.permsFor key).toOption.join := by
  simp only [CachedAuthorizer.loadCustom, Script.bind_eq, Script.op_bind, Script.run_call, World.exec]
  cases hcached : w.cached key with
  | some e => rw [h e hcached]; rfl
  | none =>
    have htable : (w.begin 0 key).table = w.table := rfl
    simp only [Option.map_none, Script.run_call, World.exec, htable]
    cases hlooked : w.table.permsFor key with
    | error err => rfl
    | ok perms =>
      cases perms with
      | none =>
        change (Script.run _ (if _ then _ else _) _).1 = _
        split <;> rfl
      | some perms =>
        change (Script.run _ (if _ then _ else _) _).1 = _
        split <;> rfl

theorem permsFor_stored (t : RoleTable) (workspaceID role : String) :
    (t.permsFor ⟨workspaceID, "", role⟩).toOption.join = t.storedList workspaceID role := by
  unfold RoleTable.permsFor RoleTable.storedList
  cases t.get (workspaceID, role) with
  | none => rfl
  | some row => rfl

theorem decides_eq (hp : IsMember p workspaceID role) (hrole : role ≠ "") (h : w.Fresh ⟨workspaceID, "", role⟩) :
    a.decides w p perm = covers (a.ruling w.table workspaceID role) perm := by
  obtain ⟨⟨hws, hne⟩, rfl, hscope, hproject, hadmin⟩ := hp
  have hkey : roleKey p = ⟨workspaceID, "", p.role⟩ := by rw [roleKey, hproject, hws]
  have hloaded := (loadCustom_run (a := a) h).trans (permsFor_stored w.table workspaceID p.role)
  have hscoped : CredentialScope.allowsWorkspace p.scope p.workspaceID ∧ CredentialScope.allowsPermission p.scope perm := by
    rw [hscope]
    exact ⟨rfl, rfl⟩
  unfold CachedAuthorizer.decides CachedAuthorizer.canIn Authorizer.canIn CachedAuthorizer.ruling
  rw [if_neg (hws ▸ hne), if_neg (not_not_intro hscoped), hadmin, if_neg Bool.false_ne_true, hkey, if_neg hrole]
  change (Script.run _ (Script.bind _ _) _).1 = _
  rw [Script.run_bind, hloaded]
  cases w.table.storedList workspaceID p.role with
  | some perms => exact RoleSet.has_eq _ _ _ |>.trans (by simp [RoleSet.set])
  | none => exact RoleSet.has_eq _ _ _

end decisions

/-! ## Displays -/

section displays

variable {a : CachedAuthorizer} {t : RoleTable} {workspaceID role : String} {perm : Permission}

/-- The overrides that are listed are those of the rows. -/
theorem lookup_overrides {overrides : List (String × List Permission)} (h : t.listRoleOverrides workspaceID = .ok overrides) :
    overrides.lookup role = (t.get (workspaceID, role)).map fun row => row.perms.decode.toOption.join.getD [] := by
  have hrows := Checks.mapM_ok.1 h
  have hget : t.get (workspaceID, role)
      = (t.rows.filter fun row => row.workspaceID = workspaceID).find? fun row => row.role = role := by
    rw [List.find?_filter]
    refine congrArg (t.rows.find? ·) (funext fun row => ?_)
    simp [WorkspaceRoleRow.key]
  rw [hget]
  clear h hget
  generalize (t.rows.filter fun row => row.workspaceID = workspaceID) = rows at hrows
  induction hrows with
  | nil => rfl
  | @cons row override rows overrides hrow _ ih =>
    cases hdecoded : row.perms.decode with
    | error err =>
      rw [hdecoded] at hrow
      cases hrow
    | ok perms =>
      rw [hdecoded] at hrow
      cases hrow
      rw [List.lookup_cons, List.find?_cons]
      by_cases hrole : role = row.role
      · subst hrole
        simp only [beq_self_eq_true, decide_true, Option.map_some, hdecoded]
        cases perms with
        | none => rfl
        | some perms => rfl
      · have hne : (role == row.role) = false := beq_false_of_ne hrole
        have hne' : decide (row.role = role) = false := decide_eq_false (Ne.symm hrole)
        simp only [hne, hne']
        exact ih

theorem listRoleOverrides_ok : (∃ overrides, t.listRoleOverrides workspaceID = .ok overrides) ↔ t.Readable workspaceID := by
  refine Checks.exists_mapM_ok.trans ?_
  simp only [List.mem_filter, decide_eq_true_eq, and_imp]
  refine forall₃_congr fun row _ _ => ?_
  cases row.perms.decode with
  | ok perms => exact ⟨fun _ => ⟨perms, rfl⟩, fun _ => ⟨_, rfl⟩⟩
  | error err => exact ⟨fun ⟨_, h⟩ => (nomatch h), fun ⟨_, h⟩ => (nomatch h)⟩

/-- What is displayed of a role that is not the owner's. -/
theorem displays_iff (hrole : role ≠ "owner") : a.Displays t workspaceID role perm ↔ t.Readable workspaceID ∧
    covers (((t.get (workspaceID, role)).map fun row => row.perms.decode.toOption.join.getD []).getD
      ((a.builtin role).getD [])) perm := by
  unfold CachedAuthorizer.Displays CachedAuthorizer.effectivePerms
  rw [if_neg hrole, ← listRoleOverrides_ok]
  cases hlist : t.listRoleOverrides workspaceID with
  | error err => exact ⟨fun ⟨_, h, _⟩ => (nomatch h), fun ⟨⟨_, h⟩, _⟩ => (nomatch h)⟩
  | ok overrides =>
    have hset : covers (roleEffective (a.builtinPerms role) overrides role).1 perm
        = covers (((t.get (workspaceID, role)).map fun row => row.perms.decode.toOption.join.getD []).getD
          ((a.builtin role).getD [])) perm := by
      unfold roleEffective
      rw [lookup_overrides hlist]
      cases t.get (workspaceID, role) with
      | none => exact covers_congr (fun p => mem_normalizePerms) perm
      | some row => exact covers_congr (fun p => mem_normalizePerms) perm
    constructor
    · rintro ⟨set, heq, hcovers⟩
      cases heq
      exact ⟨⟨overrides, rfl⟩, hset ▸ hcovers⟩
    · rintro ⟨-, hcovers⟩
      exact ⟨_, rfl, hset ▸ hcovers⟩

theorem displays_owner (hperm : a.catalog.has perm) : a.Displays t workspaceID "owner" perm := by
  refine ⟨a.catalog.list, rfl, ?_⟩
  have hmem : perm ∈ a.catalog.list := mem_normalizePerms.2 (of_decide_eq_true hperm)
  simp [covers, hmem]

end displays

/-! ## Agreement -/

theorem decode_null {perms : PermsJSON} : perms.decode = .ok none ↔ perms = .null := by
  cases perms with
  | null => exact ⟨fun _ => rfl, fun _ => rfl⟩
  | other => exact ⟨fun h => (nomatch h), fun h => (nomatch h)⟩
  | array elems =>
    simp only [PermsJSON.decode, reduceCtorEq, iff_false]
    cases elems.mapM PermJSON.decode with
    | ok perms => exact fun h => nomatch h
    | error err => exact fun h => nomatch h

/-- A permission of the catalog is displayed of a role as it is enforced exactly where `Agrees` says so. -/
theorem displayed_iff_enforced (a : CachedAuthorizer) (w : World) {p : Principal} {workspaceID role : String}
    {perm : Permission} (hp : IsMember p workspaceID role) (hrole : role = "owner" ∨ role = "admin" ∨ role = "member")
    (hperm : a.catalog.has perm) (hfresh : w.Fresh ⟨workspaceID, "", role⟩) :
    (a.decides w p perm ↔ a.Displays w.table workspaceID role perm) ↔ Agrees a w.table workspaceID role perm := by
  have hne : role ≠ "" := by rcases hrole with rfl | rfl | rfl <;> decide
  rw [decides_eq hp hne hfresh, Agrees]
  by_cases howner : role = "owner"
  · subst howner
    simp [displays_owner hperm]
  rw [displays_iff howner]
  by_cases hread : w.table.Readable workspaceID
  · cases hrow : w.table.get (workspaceID, role) with
    | none => simp [howner, hread, CachedAuthorizer.ruling, RoleTable.storedList, hrow]
    | some row =>
      have hws : row.workspaceID = workspaceID := congrArg Prod.fst (Keyed.key_of_get hrow)
      obtain ⟨perms, hdecoded⟩ := hread row (Keyed.mem_of_get hrow) hws
      have hruling : a.ruling w.table workspaceID role = perms.getD ((a.builtin role).getD []) := by
        simp [CachedAuthorizer.ruling, RoleTable.storedList, hrow, hdecoded, Except.toOption]
      have hnull : row.perms ≠ .null ↔ perms ≠ none := by
        rw [Ne, ← decode_null, hdecoded, Except.ok.injEq]
      -- null is decided by as the built-in set, and displayed as no permission
      cases perms with
      | none => simp [howner, hread, hruling, hdecoded, hnull, Except.toOption, covers]
      | some perms => simp [howner, hread, hruling, hdecoded, hnull, Except.toOption]
  · simp [howner, hread]

/-! ### A wildcard, and a permission that no owner has been given -/

/-- Members may do everything about bills, and nothing else. -/
def overriddenWorld : World :=
  { freshWorld with table := ⟨[{ workspaceID := "ws", role := "member", perms := permsJSON ["billing:*"] }], by decide⟩ }

theorem displayed_iff_enforced_wildcard : (plainAuthorizer.decides overriddenWorld eve "billing:manage" ↔
      plainAuthorizer.Displays overriddenWorld.table "ws" "member" "billing:manage") ∧
    plainAuthorizer.decides overriddenWorld eve "billing:manage" := by
  have heve : IsMember eve "ws" "member" := ⟨⟨rfl, by decide⟩, rfl, rfl, rfl, rfl⟩
  have hread : overriddenWorld.table.Readable "ws" := by
    intro row hrow _
    cases List.mem_singleton.1 hrow
    exact ⟨_, rfl⟩
  have hnotnull : ∀ row, overriddenWorld.table.get ("ws", "member") = some row → row.perms ≠ .null := by
    intro row hrow
    cases hrow
    exact PermsJSON.noConfusion
  have hagrees : Agrees plainAuthorizer overriddenWorld.table "ws" "member" "billing:manage" :=
    .inr ⟨by decide, .inl ⟨hread, hnotnull⟩⟩
  have hhas : plainAuthorizer.catalog.has "billing:manage" := by decide
  have hiff := displayed_iff_enforced plainAuthorizer overriddenWorld heve (.inr (.inr rfl)) hhas fun e he => nomatch he
  exact ⟨hiff.2 hagrees, by decide⟩

/-- A product has registered a permission, and granted it to nobody. -/
def extendedAuthorizer : CachedAuthorizer := { catalog := ⟨"reports:read" :: defaultPerms⟩ }

theorem owner_not_enforced : ¬ ∀ (a : CachedAuthorizer) (w : World) (p : Principal) (workspaceID role : String)
    (perm : Permission), IsMember p workspaceID role → role = "owner" ∨ role = "admin" ∨ role = "member" →
    a.catalog.has perm → w.Fresh ⟨workspaceID, "", role⟩ → (a.decides w p perm ↔ a.Displays w.table workspaceID role perm) := by
  intro h
  have hann : IsMember ann "ws" "owner" := ⟨⟨rfl, by decide⟩, rfl, rfl, rfl, rfl⟩
  have hiff := h extendedAuthorizer freshWorld ann "ws" "owner" "reports:read" hann (.inl rfl) (by decide) fun e he => nomatch he
  have hdecides : extendedAuthorizer.decides freshWorld ann "reports:read" = false := by decide
  exact Bool.false_ne_true (hdecides.symm.trans (hiff.2 (displays_owner (by decide))))

end Ploykit.Authz

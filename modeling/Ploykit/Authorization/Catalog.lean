import Mathlib.Data.List.Sort
import Ploykit.Lib.Checks
import Ploykit.Quota.Model

/-!
# Operation catalogs

Names that the source keeps as strings are enumerations here, with `empty` for a
field that is left out and `other` for a name that is none of the package's own.
-/

namespace Ploykit.Authorization

open Lib.Checks

/-! ## Vocabularies -/

inductive AuthMethod where
  | unauthenticated
  | session
  | scopedToken
  | machineCredential
  | other (name : String)
  deriving DecidableEq, Repr

inductive Assurance where
  | empty
  | none
  | aal1
  | aal2
  | other (name : String)
  deriving DecidableEq, Repr

inductive RecentAuthRule where
  | empty
  | none
  | password
  | passwordAndMFA
  | other (name : String)
  deriving DecidableEq, Repr

inductive IdempotencyRule where
  | empty
  | none
  | required
  | other (name : String)
  deriving DecidableEq, Repr

inductive ScopeKind where
  | platform
  | workspacePath
  | projectPath
  | projectGovernance
  | projectCredential
  | other (name : String)
  deriving DecidableEq, Repr

def AuthMethod.valid : AuthMethod → Bool
  | other _ => false
  | _ => true

def Assurance.valid : Assurance → Bool
  | none | aal1 | aal2 => true
  | _ => false

def RecentAuthRule.valid : RecentAuthRule → Bool
  | none | password | passwordAndMFA => true
  | _ => false

def IdempotencyRule.valid : IdempotencyRule → Bool
  | none | required => true
  | _ => false

def ScopeKind.valid : ScopeKind → Bool
  | other _ => false
  | _ => true

/-! ## Catalogs -/

/-- Nanoseconds, in 64 bits. -/
abbrev Duration := Int

def second : Duration := 1000000000

structure Operation where
  operationID : String
  authMethod : AuthMethod
  scope : ScopeKind
  allowedWorkspaceRoles : List String := []
  allowedProjectRoles : List String := []
  assurance : Assurance := .empty
  recentAuth : RecentAuthRule := .empty
  recentAuthWindowSeconds : Int := 0
  idempotency : IdempotencyRule := .empty
  rules : List String := []
  deriving DecidableEq, Repr

/-- `time.Duration(op.RecentAuthWindowSeconds) * time.Second` -/
def Operation.recentAuthWindow (op : Operation) : Duration :=
  Quota.wrap64 (op.recentAuthWindowSeconds * second)

structure RoleVocab where
  workspace : List String
  project : List String
  deriving DecidableEq, Repr

structure Catalog where
  catalogSchemaVersion : Int
  roles : RoleVocab
  operations : List Operation
  deriving DecidableEq, Repr

def currentCatalogSchemaVersion : Int := 1

/-- The first operation of the name. -/
def Catalog.operation (c : Catalog) (operationID : String) : Option Operation :=
  c.operations.find? fun op => op.operationID = operationID

/-! ## Normal form -/

def normalizeNames (values : List String) : List String := values.insertionSort (· ≤ ·)

namespace Operation

/-- One round of the loop of `normalized`. -/
def normalized (op : Operation) : Operation where
  operationID := op.operationID
  authMethod := op.authMethod
  scope := op.scope
  allowedWorkspaceRoles := normalizeNames op.allowedWorkspaceRoles
  allowedProjectRoles := normalizeNames op.allowedProjectRoles
  assurance := if op.assurance = .empty then .none else op.assurance
  recentAuth := if op.recentAuth = .empty then .none else op.recentAuth
  recentAuthWindowSeconds := op.recentAuthWindowSeconds
  idempotency := if op.idempotency = .empty then .none else op.idempotency
  rules := normalizeNames op.rules

end Operation

def Catalog.normalized (c : Catalog) : Catalog where
  catalogSchemaVersion := c.catalogSchemaVersion
  roles := ⟨normalizeNames c.roles.workspace, normalizeNames c.roles.project⟩
  operations := (c.operations.map Operation.normalized).insertionSort fun a b => a.operationID ≤ b.operationID

/-! ## Checks -/

/-- The errors of the checks, with the field or the operation that each names. -/
inductive CatalogError where
  | schemaVersion (version : Int)
  | emptyName (field : String)
  | openName (field name : String)
  | duplicateRole (field name : String)
  | duplicateOperation (index : Nat) (operationID : String)
  | unknownAuthMethod (operationID : String) (authMethod : AuthMethod)
  | unknownScope (operationID : String) (scope : ScopeKind)
  | unknownAssurance (operationID : String) (assurance : Assurance)
  | unknownRecentAuth (operationID : String) (recentAuth : RecentAuthRule)
  | unknownIdempotency (operationID : String) (idempotency : IdempotencyRule)
  | undeclaredWorkspaceRole (operationID role : String)
  | undeclaredProjectRole (operationID role : String)
  | semantics (operationID reason : String)
  | builtinRule (operationID rule : String)
  | unregisteredRule (operationID rule : String)
  deriving DecidableEq, Repr

/-- `strings.ContainsAny(name, " \t\r\n*")` -/
def hasOpenChar (name : String) : Bool :=
  name.toList.any fun c => c = ' ' || c = '\t' || c = '\r' || c = '\n' || c = '*'

def validateClosedName (field name : String) : Except CatalogError Unit := do
  refuseIf (name = "") (.emptyName field)
  refuseIf (hasOpenChar name) (.openName field name)

/-- `%q` of a name without quotes, backslashes and unprintable characters. -/
def quoted (name : String) : String := "\"" ++ name ++ "\""

/-- A role vocabulary, whose names are closed and distinct; `seen` are those before. -/
def validateRoles (field : String) (seen : List String) : List String → Except CatalogError Unit
  | [] => .ok ()
  | name :: names => do
    validateClosedName field name
    refuseIf (name ∈ seen) (.duplicateRole field name)
    validateRoles field (name :: seen) names

/-- The name of a scope kind, as messages have it. -/
def ScopeKind.name : ScopeKind → String
  | platform => "platform"
  | workspacePath => "workspace_path"
  | projectPath => "project_path"
  | projectGovernance => "project_governance"
  | projectCredential => "project_credential"
  | other name => name

/-- The scope of an operation against its method and its roles. -/
def validateScopeSemantics (op : Operation) : Except String Unit :=
  match op.scope with
  | .platform => do
    refuseIf (op.authMethod ≠ .unauthenticated ∧ op.authMethod ≠ .session)
      "platform operation must use unauthenticated or session auth_method"
    refuseIf (op.allowedWorkspaceRoles ≠ [] ∨ op.allowedProjectRoles ≠ [])
      "platform operation cannot declare workspace or project roles"
  | .workspacePath | .projectGovernance => do
    refuseIf (op.authMethod ≠ .session) (op.scope.name ++ " operation must use session auth_method")
    refuseIf (op.allowedWorkspaceRoles = [] ∨ op.allowedProjectRoles ≠ [])
      (op.scope.name ++ " operation requires workspace roles and forbids project roles")
  | .projectPath => do
    refuseIf (op.authMethod ≠ .session) "project_path operation must use session auth_method"
    refuseIf (op.allowedProjectRoles = [] ∨ op.allowedWorkspaceRoles ≠ [])
      "project_path operation requires project roles and forbids workspace roles"
  | .projectCredential => do
    refuseIf (op.authMethod ≠ .scopedToken ∧ op.authMethod ≠ .machineCredential)
      "project_credential operation requires scoped_token or machine_credential auth_method"
    refuseIf (op.allowedWorkspaceRoles ≠ [])
      "project_credential operation cannot declare workspace roles"
    refuseIf (op.authMethod = .scopedToken ∧ op.allowedProjectRoles = [])
      "scoped_token operation requires project roles"
    refuseIf (op.authMethod = .machineCredential ∧ op.allowedProjectRoles ≠ [])
      "machine_credential operation cannot declare person project roles"
  | .other name => .error ("unknown scope " ++ quoted name)

/-- The assurance and the recent authentication of an operation against its method. -/
def validateAuthSemantics (op : Operation) : Except String Unit :=
  if op.authMethod = .session then do
    refuseIf (op.assurance ≠ .aal1 ∧ op.assurance ≠ .aal2)
      "session operation must declare aal1 or aal2 assurance"
    refuseIf (op.recentAuth = .passwordAndMFA ∧ op.assurance ≠ .aal2)
      "password_and_mfa recent_auth requires aal2 assurance"
    if op.recentAuth = .none then
      refuseIf (op.recentAuthWindowSeconds ≠ 0)
        "recent_auth_window_seconds is forbidden when recent_auth is none"
    else
      refuseIf (op.recentAuthWindowSeconds ≤ 0)
        "recent_auth operations must declare a positive recent_auth_window_seconds (no package default)"
  else do
    refuseIf (op.assurance ≠ .none) "non-session operation cannot declare assurance"
    refuseIf (op.recentAuth ≠ .none) "non-session operation cannot declare recent_auth"

def validateOperationSemantics (op : Operation) : Except String Unit := do
  refuseIf (op.authMethod = .unauthenticated ∧ op.scope ≠ .platform)
    "unauthenticated operation must use platform scope"
  validateScopeSemantics op
  validateAuthSemantics op

/-- The fields of an operation that has a name of its own. -/
def validateOperation (roles : RoleVocab) (op : Operation) : Except CatalogError Unit := do
  refuseIf (¬ op.authMethod.valid) (.unknownAuthMethod op.operationID op.authMethod)
  refuseIf (¬ op.scope.valid) (.unknownScope op.operationID op.scope)
  refuseIf (¬ op.assurance.valid) (.unknownAssurance op.operationID op.assurance)
  refuseIf (¬ op.recentAuth.valid) (.unknownRecentAuth op.operationID op.recentAuth)
  refuseIf (¬ op.idempotency.valid) (.unknownIdempotency op.operationID op.idempotency)
  op.allowedWorkspaceRoles.forM fun role =>
    refuseIf (role ∉ roles.workspace) (.undeclaredWorkspaceRole op.operationID role)
  op.allowedProjectRoles.forM fun role =>
    refuseIf (role ∉ roles.project) (.undeclaredProjectRole op.operationID role)
  op.rules.forM (validateClosedName ("operation " ++ quoted op.operationID ++ " rules"))
  (validateOperationSemantics op).mapError (.semantics op.operationID)

/-- The loop of `validateStructure` over the operations; `seen` are the names before. -/
def validateOperations (roles : RoleVocab) (i : Nat) (seen : List String) :
    List Operation → Except CatalogError Unit
  | [] => .ok ()
  | op :: ops => do
    validateClosedName ("operations[" ++ toString i ++ "].operation_id") op.operationID
    refuseIf (op.operationID ∈ seen) (.duplicateOperation i op.operationID)
    validateOperation roles op
    validateOperations roles (i + 1) (op.operationID :: seen) ops

/-- The source ranges over the two vocabularies in any order. -/
def Catalog.validateStructure (c : Catalog) : Except CatalogError Unit := do
  refuseIf (c.catalogSchemaVersion ≠ currentCatalogSchemaVersion) (.schemaVersion c.catalogSchemaVersion)
  validateRoles "roles.workspace" [] c.roles.workspace
  validateRoles "roles.project" [] c.roles.project
  validateOperations c.roles 0 [] c.operations

/-- `Hash`, with `digest` for the encoding of the normal form and the hash of it. -/
def Catalog.hash {H : Type} (digest : Catalog → H) (c : Catalog) : Except CatalogError H := do
  c.normalized.validateStructure
  return digest c.normalized

end Ploykit.Authorization

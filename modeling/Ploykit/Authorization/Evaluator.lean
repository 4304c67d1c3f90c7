import Ploykit.Authorization.Catalog

/-!
# Evaluation

A rule of a product sees the whole request, the rules of the request included. So
requests are over a type `R` of rules, and `Rule` says what a rule answers. A stage
answers with a decision, or with none when it passes.
-/

namespace Ploykit.Authorization

open Lib.Checks

/-! ## Principals and scopes -/

/-- Nanoseconds since the zero time. -/
abbrev Instant := Int

def Instant.isZero (t : Instant) : Bool := t = 0

inductive Scope where
  | platform
  | workspace (workspaceID : String)
  | project (workspaceID projectID : String)
  deriving DecidableEq, Repr

/-- `Workspace()`, with whether there is one. -/
def Scope.workspaceID : Scope → Option String
  | platform => none
  | workspace ws => if ws ≠ "" then some ws else none
  | project ws _ => if ws ≠ "" then some ws else none

/-- `Project()`, with whether there is one. -/
def Scope.projectID : Scope → Option String
  | platform => none
  | workspace _ => none
  | project _ pj => if pj ≠ "" then some pj else none

structure ProjectScope where
  workspaceID : String
  projectID : String
  deriving DecidableEq, Repr

structure SessionPrincipal where
  subjectID : String
  sessionID : String
  assurance : Assurance
  absoluteExpiry : Instant
  idleExpiry : Instant
  deriving DecidableEq, Repr

structure ScopedTokenPrincipal where
  subjectID : String
  tokenID : String
  scope : ProjectScope
  deriving DecidableEq, Repr

structure MachineCredentialPrincipal where
  credentialID : String
  scope : ProjectScope
  notBefore : Instant
  expiresAt : Instant
  deriving DecidableEq, Repr

inductive PrincipalValue where
  | session (p : SessionPrincipal)
  | scopedToken (p : ScopedTokenPrincipal)
  | machineCredential (p : MachineCredentialPrincipal)
  deriving DecidableEq, Repr

/-- A value of the interface `Principal`: one of the structs, or a pointer to one. The
methods have value receivers, so both have them. -/
inductive Principal where
  | value (v : PrincipalValue)
  | pointer (v : PrincipalValue)
  deriving DecidableEq, Repr

def PrincipalValue.authMethod : PrincipalValue → AuthMethod
  | session _ => .session
  | scopedToken _ => .scopedToken
  | machineCredential _ => .machineCredential

namespace Principal

def authMethod : Principal → AuthMethod
  | value v => v.authMethod
  | pointer v => v.authMethod

/-- `principal.(SessionPrincipal)` -/
def asSession : Principal → Option SessionPrincipal
  | value (.session p) => some p
  | _ => none

/-- `principal.(MachineCredentialPrincipal)` -/
def asMachineCredential : Principal → Option MachineCredentialPrincipal
  | value (.machineCredential p) => some p
  | _ => none

end Principal

def principalScopeBinding : Option Principal → Option ProjectScope
  | some (.value (.scopedToken p)) => some p.scope
  | some (.value (.machineCredential p)) => some p.scope
  | _ => none

/-! ## Decisions -/

inductive Outcome where
  | deny
  | allow
  | challenge
  | other (code : UInt8)
  deriving DecidableEq, Repr

inductive Stage where
  | authentication
  | scope
  | membership
  | role
  | policy
  | input
  | complete
  | other (name : String)
  deriving DecidableEq, Repr

structure Challenge where
  targetOperationID : String
  requiredAssurance : Assurance
  maxAge : Duration
  deriving DecidableEq, Repr

structure Decision where
  outcome : Outcome
  stage : Stage
  reasonCode : String
  challenge : Option Challenge := none
  deriving DecidableEq, Repr

def Decision.allowed (d : Decision) : Bool := d.outcome = .allow

def reasonAllowed : String := "allowed"
def reasonUnknownOperationOrScope : String := "unknown_operation_or_scope"
def reasonAuthMethodNotAllowed : String := "auth_method_not_allowed"
def reasonPrincipalRequired : String := "principal_required"
def reasonSessionInactive : String := "session_inactive"
def reasonCredentialInactive : String := "credential_inactive"
def reasonAssuranceRequired : String := "assurance_required"
def reasonRecentAuthRequired : String := "recent_auth_required"
def reasonScopeMismatch : String := "scope_mismatch"
def reasonPrincipalScopeMismatch : String := "principal_scope_mismatch"
def reasonCredentialMembershipInactive : String := "credential_membership_inactive"
def reasonWorkspaceMembershipInactive : String := "workspace_membership_inactive"
def reasonProjectMembershipInactive : String := "project_membership_inactive"
def reasonWorkspaceRoleNotAllowed : String := "workspace_role_not_allowed"
def reasonProjectRoleNotAllowed : String := "project_role_not_allowed"
def reasonIdempotencyInvalid : String := "idempotency_invalid"

def allow : Decision := ⟨.allow, .complete, reasonAllowed, none⟩

def deny (stage : Stage) (reason : String) : Decision := ⟨.deny, stage, reason, none⟩

def newChallenge (op : Operation) : Decision where
  outcome := .challenge
  stage := .authentication
  reasonCode := ""
  challenge := some {
    targetOperationID := op.operationID
    requiredAssurance := if op.recentAuth = .password ∧ op.assurance = .aal1 then .aal1 else .aal2
    maxAge := op.recentAuthWindow }

/-! ## Requests -/

/-- The facts of a request, `V` being the values of the facts of a product. -/
structure Facts (V : Type) where
  activeUser : Bool := false
  activeSession : Bool := false
  credentialGrantActive : Bool := false
  activeWorkspaceMembership : Bool := false
  activeProjectMembership : Bool := false
  workspaceRoles : List String := []
  projectRoles : List String := []
  assurance : Assurance := .empty
  recentPasswordAt : Instant := 0
  recentMFAAt : Instant := 0
  idempotencyValid : Bool := false
  product : List (String × V) := []
  deriving DecidableEq, Repr

structure Request (R V : Type) where
  operation : Operation
  principal : Option Principal
  scope : Option Scope
  facts : Facts V
  now : Instant
  rules : List (Option R) := []

/-- What the rules of a product are and what they answer. -/
class Rule (R V : Type) where
  ruleName : R → String
  stage : R → Stage
  evaluate : R → Request R V → Option Decision

section

variable {R V : Type} [Rule R V]

/-! ## Rules -/

def builtinAssuranceRule (req : Request R V) : Option Decision :=
  if req.operation.assurance ≠ .aal2 ∨ req.facts.assurance = .aal2 then none
  else some { newChallenge req.operation with reasonCode := reasonAssuranceRequired }

/-- The time is in the window of the operation; `-window` is taken in 64 bits, too. -/
def recent (req : Request R V) (t : Instant) : Bool :=
  ¬ t.isZero ∧ t ≤ req.now ∧ req.now + Quota.wrap64 (-req.operation.recentAuthWindow) ≤ t

def builtinRecentAuthRule (req : Request R V) : Option Decision :=
  let insufficient : Bool := match req.operation.recentAuth with
    | .none => false
    | .password => ¬ recent req req.facts.recentPasswordAt
    | .passwordAndMFA => ¬ recent req req.facts.recentPasswordAt ∨ ¬ recent req req.facts.recentMFAAt
    | _ => true
  if insufficient then some { newChallenge req.operation with reasonCode := reasonRecentAuthRequired }
  else none

/-- `for _, rule := range builtinRules` -/
def runBuiltinRules (req : Request R V) : Option Decision :=
  (builtinAssuranceRule req).or (builtinRecentAuthRule req)

/-- The loop of `runProductRules` over the rules that are left. -/
def runRules (req : Request R V) (stage : Stage) : List (Option R) → Option Decision
  | [] => none
  | none :: rules => runRules req stage rules
  | some rule :: rules =>
    if Rule.stage V rule ≠ stage then runRules req stage rules
    else
      match Rule.evaluate rule req with
      | none => runRules req stage rules
      | some decision =>
        if decision.outcome = .allow then runRules req stage rules
        else some { decision with stage := stage }

def runProductRules (req : Request R V) (stage : Stage) : Option Decision :=
  runRules req stage req.rules

/-! ## Stages -/

def evaluateAuthentication (req : Request R V) : Option Decision :=
  if req.operation.authMethod = .unauthenticated then
    if req.principal.isSome then some (deny .authentication reasonAuthMethodNotAllowed) else none
  else
    match req.principal with
    | none => some (deny .authentication reasonPrincipalRequired)
    | some principal =>
      if principal.authMethod ≠ req.operation.authMethod then
        some (deny .authentication reasonAuthMethodNotAllowed)
      else if ∃ session ∈ principal.asSession, ¬ req.facts.activeUser ∨ ¬ req.facts.activeSession ∨
          session.absoluteExpiry < req.now ∨ session.idleExpiry < req.now then
        some (deny .authentication reasonSessionInactive)
      else if ∃ machine ∈ principal.asMachineCredential, ¬ req.facts.credentialGrantActive ∨
          req.now < machine.notBefore ∨ (¬ machine.expiresAt.isZero ∧ machine.expiresAt ≤ req.now) then
        some (deny .authentication reasonCredentialInactive)
      else (runBuiltinRules req).or (runProductRules req .authentication)

def scopeMatches (expected : ScopeKind) (scope : Scope) : Bool :=
  match expected with
  | .platform => scope.workspaceID.isNone ∧ scope.projectID.isNone
  | .workspacePath => scope.workspaceID.any (· ≠ "") ∧ scope.projectID.isNone
  | .projectPath | .projectGovernance | .projectCredential =>
    scope.workspaceID.any (· ≠ "") ∧ scope.projectID.any (· ≠ "")
  | .other _ => false

/-- The stage is only reached with a scope. -/
def evaluateScope (req : Request R V) (scope : Scope) : Option Decision :=
  if ¬ scopeMatches req.operation.scope scope then some (deny .scope reasonScopeMismatch)
  else if ∃ binding ∈ principalScopeBinding req.principal,
      ¬ (scope.workspaceID = some binding.workspaceID ∧ scope.projectID = some binding.projectID) then
    some (deny .scope reasonPrincipalScopeMismatch)
  else runProductRules req .scope

def evaluateMembership (req : Request R V) : Option Decision :=
  if req.operation.authMethod = .scopedToken ∧ ¬ (req.facts.activeUser ∧
      req.facts.activeWorkspaceMembership ∧ req.facts.activeProjectMembership) then
    some (deny .membership reasonCredentialMembershipInactive)
  else if (req.operation.scope = .workspacePath ∨ req.operation.scope = .projectPath ∨
      req.operation.scope = .projectGovernance) ∧ ¬ req.facts.activeWorkspaceMembership then
    some (deny .membership reasonWorkspaceMembershipInactive)
  else if req.operation.scope = .projectPath ∧ ¬ req.facts.activeProjectMembership then
    some (deny .membership reasonProjectMembershipInactive)
  else runProductRules req .membership

def intersects (actual allowed : List String) : Bool := allowed.any (· ∈ actual)

def evaluateRole (req : Request R V) : Option Decision :=
  let ofWorkspace := some (deny .role reasonWorkspaceRoleNotAllowed)
  let ofProject := some (deny .role reasonProjectRoleNotAllowed)
  match req.operation.scope with
  | .workspacePath | .projectGovernance =>
    if ¬ intersects req.facts.workspaceRoles req.operation.allowedWorkspaceRoles then ofWorkspace
    else runProductRules req .role
  | .projectPath =>
    if ¬ intersects req.facts.projectRoles req.operation.allowedProjectRoles then ofProject
    else runProductRules req .role
  | .projectCredential =>
    if req.operation.authMethod = .scopedToken ∧
        ¬ intersects req.facts.projectRoles req.operation.allowedProjectRoles then ofProject
    else runProductRules req .role
  | _ => runProductRules req .role

def evaluateInput (req : Request R V) : Option Decision :=
  if req.operation.idempotency = .required ∧ ¬ req.facts.idempotencyValid then
    some (deny .input reasonIdempotencyInvalid)
  else runProductRules req .input

def evaluateStage (req : Request R V) (scope : Scope) : Stage → Option Decision
  | .authentication => evaluateAuthentication req
  | .scope => evaluateScope req scope
  | .membership => evaluateMembership req
  | .role => evaluateRole req
  | .policy => runProductRules req .policy
  | _ => evaluateInput req

def stages : List Stage := [.authentication, .scope, .membership, .role, .policy, .input]

/-- `Evaluate`, at the time that the clock shows. -/
def evaluate (clock : Instant) (request : Request R V) : Decision :=
  let req := if request.now.isZero then { request with now := clock } else request
  match req.scope with
  | none => deny .policy reasonUnknownOperationOrScope
  | some scope =>
    if req.operation.operationID = "" then deny .policy reasonUnknownOperationOrScope
    else (stages.findSome? (evaluateStage req scope)).getD allow

end

/-! ## Registries -/

def ruleNameAssurance : String := "assurance"
def ruleNameRecentAuth : String := "recent_auth"

def isBuiltin (name : String) : Bool := name = ruleNameAssurance ∨ name = ruleNameRecentAuth

/-- The rules and the facts that a product has registered. -/
structure Registry (R : Type) where
  rules : String → Option R
  facts : List String

inductive RegistryError where
  | resolveBuiltin (name : String)
  | resolveUnregistered (name : String)
  | unregisteredFact (key : String)
  | facts (operationID : String) (err : String)
  deriving DecidableEq, Repr

namespace Registry

variable {R V : Type}

/-- `Resolve`, over the names that are left. -/
def resolve (reg : Registry R) : List String → Except RegistryError (List (Option R))
  | [] => .ok []
  | name :: names => do
    refuseIf (isBuiltin name) (.resolveBuiltin name)
    match reg.rules name with
    | none => .error (.resolveUnregistered name)
    | some rule => return some rule :: (← reg.resolve names)

/-- The source ranges over the keys in any order. -/
def validateFacts (reg : Registry R) (facts : Facts V) : Except RegistryError Unit :=
  match facts.product.find? fun p => p.1 ∉ reg.facts with
  | some p => .error (.unregisteredFact p.1)
  | none => .ok ()

end Registry

def validateRuleClosure {R : Type} (reg : Registry R) (ops : List Operation) : Except CatalogError Unit :=
  ops.forM fun op => op.rules.forM fun name => do
    refuseIf (isBuiltin name) (.builtinRule op.operationID name)
    refuseIf (reg.rules name).isNone (.unregisteredRule op.operationID name)

def Catalog.validate {R : Type} (c : Catalog) (reg : Registry R) : Except CatalogError Unit := do
  c.normalized.validateStructure
  validateRuleClosure reg c.normalized.operations

/-! ## Evaluators -/

/-- What loads the facts of a request. -/
abbrev FactsProvider (V : Type) := Option Principal → Option Scope → Except String (Facts V)

/-- An evaluator keeps the catalog as it is given, and the catalog has been validated. -/
structure Evaluator (R V : Type) where
  catalog : Catalog
  registry : Registry R
  provider : FactsProvider V
  valid : catalog.validate registry = .ok ()

def Evaluator.authorize {R V : Type} [Rule R V] (e : Evaluator R V) (clock : Instant) (operationID : String)
    (principal : Option Principal) (scope : Option Scope) (now : Instant) :
    Except RegistryError Decision :=
  match e.catalog.operation operationID with
  | none => return deny .policy reasonUnknownOperationOrScope
  | some operation => do
    let facts ← (e.provider principal scope).mapError (.facts operationID)
    e.registry.validateFacts facts
    let rules ← e.registry.resolve operation.rules
    return evaluate clock { operation, principal, scope, facts, now, rules }

end Ploykit.Authorization

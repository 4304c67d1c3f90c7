import Ploykit.Platform.Text

/-!
# Errors and principals

`webx.Error`, less the retry hint that only rate limits set, and `webx.Principal`, less what services
do not read. An absent list of a scope restricts nothing, an empty one everything.
-/

namespace Ploykit.Webx

structure Error where
  status : Nat
  code : String
  message : String
  deriving DecidableEq, Repr

def newError (status : Nat) (code message : String) : Error := ⟨status, code, message⟩

def newValidation (msg : String) : Error := newError 400 "E_VALIDATION" msg
def newUnauthenticated (msg : String) : Error := newError 401 "E_UNAUTHENTICATED" msg
def newForbidden (msg : String) : Error := newError 403 "E_FORBIDDEN" msg
def newNotFound (msg : String) : Error := newError 404 "E_NOT_FOUND" msg
def newConflict (msg : String) : Error := newError 409 "E_CONFLICT" msg
def newRateLimited (msg : String) : Error := newError 429 "E_RATE_LIMITED" msg
def newQuotaExceeded (msg : String) : Error := newError 402 "E_QUOTA_EXCEEDED" msg

/-! ## Principals -/

structure ProjectScope where
  id : String
  role : String
  deriving DecidableEq, Repr

structure CredentialScope where
  workspaceIDs : Option (List String) := none
  permissions : Option (List String) := none
  deriving DecidableEq, Repr

/-- The part of a permission before the colon, unless the colon comes first. -/
def permDomain (perm : String) : String :=
  let dom := perm.toList.takeWhile (· ≠ ':')
  if dom = [] then perm else String.ofList dom

namespace CredentialScope

def allowsWorkspace (s : Option CredentialScope) (workspaceID : String) : Bool :=
  match s.bind workspaceIDs with
  | none => true
  | some ids => workspaceID ∈ ids

def allowsPermission (s : Option CredentialScope) (perm : String) : Bool :=
  match s.bind permissions with
  | none => true
  | some perms => perms.any fun p => p = perm || Strings.cutSuffix p ":*" = some (permDomain perm)

end CredentialScope

structure Principal where
  userID : String
  email : String := ""
  workspaceID : String := ""
  role : String := ""
  project : Option ProjectScope := none
  scope : Option CredentialScope := none
  isPlatformAdmin : Bool := false
  deriving DecidableEq, Repr

end Ploykit.Webx

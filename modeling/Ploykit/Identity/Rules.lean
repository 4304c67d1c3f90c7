import Ploykit.Platform.Webx

/-!
# Identity rules

`identity/domain`. Go lengths are in bytes, and durations in nanoseconds. What
`strings.ToLower` makes of an address is an argument.
-/

namespace Ploykit.Identity

abbrev Time := Int
abbrev Duration := Int

def second : Duration := 1000000000
def minute : Duration := 60 * second
def hour : Duration := 60 * minute

/-! ## Codes and links -/

def codeLength : Nat := 6
def codeTTL : Duration := 10 * minute
def codeMaxTries : Nat := 5
def resendCooldown : Duration := minute
def linkCooldown : Duration := minute
def resetLinkTTL : Duration := hour
def verifyLinkTTL : Duration := 24 * hour

def codeExpiry (now : Time) : Time := now + codeTTL

def codeOK (code : String) : Bool := code.utf8ByteSize = codeLength ∧ code.toList.all Char.isDigit

/-! ## Addresses -/

/-- `\s` of a regular expression -/
def isRegexSpace (c : Char) : Bool := c ∈ ['\t', '\n', '\x0c', '\r', ' ']

/-- One @ with something before it and a dot inside what comes after, and no space. -/
def emailRe (e : List Char) : Bool :=
  let dom := (e.dropWhile (· ≠ '@')).drop 1
  e.all (¬ isRegexSpace ·) ∧ e.head? ≠ some '@' ∧ '@' ∉ dom ∧ '.' ∈ (dom.drop 1).dropLast

section addresses

variable (toLower : String → String)

def normalizeEmail (email : String) : String := toLower (Strings.trimSpace email)

def emailOK (email : String) : Bool :=
  let e := toLower (Strings.trimSpace email)
  e.utf8ByteSize ≤ 254 ∧ emailRe e.toList

/-- What follows the last @. -/
def emailDomain (email : List Char) : Option (List Char) :=
  if '@' ∈ email then some (email.reverse.takeWhile (· ≠ '@')).reverse else none

def emailWhitelisted (email : String) (allowedEmails allowedDomains : List String) : Bool :=
  let email := toLower (Strings.trimSpace email)
  if allowedEmails.any fun e => Strings.equalFold (Strings.trimSpace e) email then true
  else
    match emailDomain email.toList with
    | none => false
    | some dom => allowedDomains.any fun d =>
      let d := (toLower (Strings.trimSpace d)).toList
      d = dom || (d.head? = some '.' && d <:+ dom)

def signupAllowed (email : String) (allowedEmails allowedDomains : List String) : Bool :=
  if allowedEmails = [] ∧ allowedDomains = [] then true
  else emailWhitelisted toLower email allowedEmails allowedDomains

end addresses

/-! ## Passwords -/

def passwordOK (pw : String) : Bool :=
  let kinds := [pw.toList.any Char.isDigit, pw.toList.any Char.isLower, pw.toList.any Char.isUpper,
    pw.toList.any fun c => ¬ (c.isDigit ∨ c.isLower ∨ c.isUpper)]
  10 ≤ pw.utf8ByteSize ∧ pw.utf8ByteSize ≤ 128 ∧ 3 ≤ kinds.count true

example : passwordOK "Tr0ub4dor&3" ∧ ¬ passwordOK "alllowercase" := by decide

end Ploykit.Identity

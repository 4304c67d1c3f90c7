import Ploykit.Platform.Text

/-!
# Addresses

An IP is the list of its bytes, 16 of them where `ParseIP` gives it. Texts are lists of characters.
-/

namespace Ploykit.Net

abbrev IP := List UInt8

def isDigit (c : Char) : Bool := '0' ≤ c && c ≤ '9'

def isHex (c : Char) : Bool := isDigit c || 'a' ≤ c && c ≤ 'f' || 'A' ≤ c && c ≤ 'F'

def digitValue (c : Char) : Nat :=
  if isDigit c then c.toNat - 48 else if 'a' ≤ c then c.toNat - 87 else c.toNat - 55

/-- The number that the digits write in the base. -/
def number (base : Nat) (s : List Char) : Nat := s.foldl (fun n c => n * base + digitValue c) 0

def octet (s : List Char) : Option UInt8 :=
  if s ≠ [] ∧ s.all isDigit ∧ (s.head? = some '0' → s.length = 1) ∧ s.length ≤ 3 ∧ number 10 s ≤ 255 then some (number 10 s).toUInt8 else none

/-- The four fields of an address in dotted decimal. -/
def parseIPv4 (s : List Char) : Option IP :=
  let fields := s.splitOn '.'
  if fields.length = 4 then fields.mapM octet else none

/-- The groups of an IPv6 address, with the bytes so far and where the ellipsis stands. -/
def parseGroups : Nat → IP → Option Nat → List Char → Option (IP × Option Nat)
  | 0, bytes, ellipsis, s => if s = [] then some (bytes, ellipsis) else none
  | n + 1, bytes, ellipsis, s =>
    let digits := s.takeWhile isHex
    let grown := bytes ++ [(number 16 digits / 256).toUInt8, (number 16 digits % 256).toUInt8]
    if digits = [] ∨ 4 < digits.length then none
    else match s.dropWhile isHex with
      | [] => some (grown, ellipsis)
      | '.' :: _ => if (ellipsis = none ∧ bytes.length ≠ 12) ∨ 12 < bytes.length then none else (parseIPv4 s).map (bytes ++ ·, ellipsis)
      | [':'] => none
      | ':' :: ':' :: rest =>
        if ellipsis.isSome then none else if rest = [] then some (grown, some grown.length)
        else parseGroups n grown (some grown.length) rest
      | ':' :: rest => parseGroups n grown ellipsis rest
      | _ => none

/-- The ellipsis stands for the groups that are missing, at least one. -/
def expand : IP × Option Nat → Option IP
  | (bytes, none) => if bytes.length = 16 then some bytes else none
  | (bytes, some at_) =>
    if bytes.length < 16 then some (bytes.take at_ ++ List.replicate (16 - bytes.length) 0 ++ bytes.drop at_) else none

def parseIPv6 (s : List Char) : Option IP :=
  if '%' ∈ s then none
  else if [':', ':'] <+: s then
    if s.drop 2 = [] then some (List.replicate 16 0) else (parseGroups 8 [] (some 0) (s.drop 2)).bind expand
  else (parseGroups 8 [] none s).bind expand

/-- The address of four bytes among those of sixteen. -/
def mapped (ip : IP) : IP := List.replicate 10 0 ++ [0xFF, 0xFF] ++ ip

/-- `net.ParseIP` -/
def ParseIP (s : List Char) : Option IP :=
  match s.find? fun c => c = '.' || c = ':' || c = '%' with
  | some '.' => (parseIPv4 s).map mapped
  | some ':' => parseIPv6 s
  | _ => none

def To4 (ip : IP) : Option IP :=
  if ip.length = 4 then some ip
  else if ip.length = 16 ∧ ip.take 12 = mapped [] then some (ip.drop 12) else none

structure IPNet where
  ip : IP
  mask : List UInt8

def networkNumberAndMask (n : IPNet) : IP × List UInt8 :=
  let ip := (To4 n.ip).getD n.ip
  if ip.length ≠ 4 ∧ ip.length ≠ 16 then ([], [])
  else if n.mask.length = 4 then if ip.length = 4 then (ip, n.mask) else ([], [])
  else if n.mask.length = 16 then (ip, if ip.length = 4 then n.mask.drop 12 else n.mask)
  else ([], [])

/-- `IPNet.Contains` -/
def IPNet.Contains (n : IPNet) (ip : IP) : Bool :=
  let x := (To4 ip).getD ip
  let nn := networkNumberAndMask n
  x.length = nn.1.length && List.zipWith (· &&& ·) nn.1 nn.2 = List.zipWith (· &&& ·) x nn.2

/-- The host of `net.SplitHostPort`. -/
def splitHost (s : List Char) : Option (List Char) :=
  let port := (s.reverse.takeWhile (· ≠ ':')).reverse
  if ':' ∉ s then none
  else if s.head? = some '[' then
    let inner := (s.drop 1).takeWhile (· ≠ ']')
    let rest := (s.drop 1).drop (inner.length + 1)
    if ']' ∈ s ∧ rest = ':' :: port ∧ '[' ∉ inner ∧ '[' ∉ rest ∧ ']' ∉ rest then some inner else none
  else
    let host := s.take (s.length - port.length - 1)
    if ':' ∈ host ∨ '[' ∈ s ∨ ']' ∈ s then none else some host

example : (ParseIP "203.0.113.9".toList, ParseIP "::ffff:1.2.3.4".toList, ParseIP "1.2.3.04".toList) =
    (some (mapped [203, 0, 113, 9]), some (mapped [1, 2, 3, 4]), none) := by decide

end Ploykit.Net

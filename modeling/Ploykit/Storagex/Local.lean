import Ploykit.Lib.FileTree
import Ploykit.Platform.GoString

/-!
# The local store

`platform/storagex/storagex.go` and `local.go`. The directory has no links in it, the
process has it to itself, and the system does not fail.

What the contents of files are is left open. `Contents` says which functions on them the
store calls.
-/

namespace Ploykit.Storagex

open Lib GoString

abbrev Key := GoString

/-! ## Keys -/

def digits : List UInt8 := lit "123456789"

def windowsReserved : List GoString :=
  [lit "CON", lit "PRN", lit "AUX", lit "NUL"] ++ digits.flatMap fun d => [lit "COM" ++ [d], lit "LPT" ++ [d]]

/-- `strings.ToUpper`, for the letters that the reserved names have. -/
def toUpper (s : GoString) : GoString := s.map fun c => if 'a'.toUInt8 ≤ c ∧ c ≤ 'z'.toUInt8 then c - 32 else c

def validSegment (seg : GoString) : Bool :=
  !(seg = [] || seg = lit "." || seg = lit "..") && !(seg.getLast?.any fun c => (lit ". ").contains c) &&
    !windowsReserved.contains (toUpper (seg.takeWhile fun c => c ≠ '.'.toUInt8))

def validKey (key : Key) : Bool :=
  !(key = [] || 512 < key.length) && key.elements.all validSegment &&
    !(key.any fun c => c = '\\'.toUInt8 || c = ':'.toUInt8 || c = 0) &&
    !(key.head? = some slash || key.getLast? = some slash)

def escapeKey (key : Key) : GoString := join (key.elements.map pathEscape)

/-! ## Objects -/

structure Object where
  key : Key
  contentType : String
  size : Nat
  sha256 : String
  deriving DecidableEq, Repr

structure Meta where
  contentType : String
  size : Nat
  sha256 : String
  disposition : String
  filename : GoString
  deriving DecidableEq, Repr

def dispositionFor (contentType : String) : String :=
  let ct := contentType.toList.map Char.toLower
  if "svg".toList <:+: ct ∨ "html".toList <:+: ct then "attachment" else "inline"

/-- The bytes of files, and what the libraries compute of them. -/
structure Contents (B : Type) where
  len : B → Nat
  sha256 : B → String
  detectContentType : B → String
  /-- The size that a directory is said to have. -/
  dirSize : Nat
  marshal : Meta → B
  unmarshal : B → Option Meta
  /-- What is not text in a name of a file is replaced in a document. -/
  unmarshal_marshal : ∀ m, ∃ filename, unmarshal (marshal m) = some { m with filename }

inductive Err where
  | invalidKey
  | os (e : Errno)
  | badMeta
  deriving DecidableEq, Repr

abbrev Tree (B : Type) := FileTree GoString B

def metaSuffix : GoString := lit ".meta.json"

def Key.path (key : Key) : Except Err (List GoString) := if validKey key then .ok key.elements else .error .invalidKey

def Key.metaPath (key : Key) : List GoString := elements (key ++ metaSuffix)

section calls

variable {B : Type} (C : Contents B)

/-- The metadata that is stored beside an object. -/
def metaFor (key : Key) (contentType : String) (body : B) : Meta where
  contentType := contentType
  size := C.len body
  sha256 := C.sha256 body
  disposition := dispositionFor contentType
  filename := key.elements.getLast elements_ne_nil

def Meta.object (m : Meta) (key : Key) : Object := ⟨key, m.contentType, m.size, m.sha256⟩

def contentTypeOr (contentType : String) : String := if contentType = "" then "application/octet-stream" else contentType

def put (key : Key) (contentType : String) (body : B) (t : Tree B) : Except Err Object × Tree B :=
  match key.path with
  | .error e => (.error e, t)
  | .ok p =>
    match t.mkdirAll p.dropLast with
    | .error e => (.error (.os e), t)
    | .ok t =>
      let contentType := contentTypeOr contentType
      match t.write p body with
      | .error e => (.error (.os e), t)
      | .ok t =>
        let m := metaFor C key contentType body
        match t.write key.metaPath (C.marshal m) with
        | .error e => (.error (.os e), t)
        | .ok t => (.ok (m.object key), t)

/-- An object that was written without its metadata. -/
def sniffObject (key : Key) : FileNode B → Object
  | .file b => ⟨key, C.detectContentType b, C.len b, ""⟩
  | .dir => ⟨key, "text/plain; charset=utf-8", C.dirSize, ""⟩

def objectFor (key : Key) (f : FileNode B) (t : Tree B) : Except Err Object :=
  match t.readFile key.metaPath with
  | .error .noEnt => .ok (sniffObject C key f)
  | .error e => .error (.os e)
  | .ok mb =>
    match C.unmarshal mb with
    | none => .error .badMeta
    | some m => .ok (m.object key)

/-- `Open`, which opens directories too. -/
def openObject (key : Key) (t : Tree B) : Except Err (FileNode B × Object) :=
  match key.path with
  | .error e => .error e
  | .ok p =>
    match t.stat p with
    | .error e => .error (.os e)
    | .ok f => (objectFor C key f t).map fun o => (f, o)

/-- What is not there need not be removed. -/
def removeIfThere (p : List GoString) (t : Tree B) : Except Errno (Tree B) :=
  match t.remove p with
  | .error .noEnt => .ok t
  | r => r

def delete (key : Key) (t : Tree B) : Except Err Unit × Tree B :=
  match key.path with
  | .error e => (.error e, t)
  | .ok p =>
    match removeIfThere p t with
    | .error e => (.error (.os e), t)
    | .ok t =>
      match removeIfThere key.metaPath t with
      | .error e => (.error (.os e), t)
      | .ok t => (.ok (), t)

/-- What the walk of `List` makes of a file. -/
def listed (pre : GoString) (rel : GoString) (mb : B) : Option Object :=
  let escaped := escapeKey pre
  if ¬ metaSuffix <:+ rel then none
  else
    let key := rel.trimSuffix metaSuffix
    if escaped ≠ [] ∧ ¬ escaped <+: key then none
    else
      let key := (pathUnescape (keepEncodedSlashes key)).getD key
      (C.unmarshal mb).map fun m => m.object key

def list (pre : GoString) (t : Tree B) : List Object :=
  (t.files.filterMap fun (p, b) => listed C pre (join p) b).mergeSort fun a b => a.key ≤ b.key

end calls

end Ploykit.Storagex

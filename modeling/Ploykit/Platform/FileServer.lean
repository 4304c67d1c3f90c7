import Ploykit.Platform.Http

/-!
# http.FileServer

`http.FileServer(http.FS(fsys))` over files that do not change. Of the header map only the type of the
content is written. Times are seconds.
-/

namespace Ploykit.Http

namespace Status

def movedPermanently : Status := ⟨301, by decide⟩
def forbidden : Status := ⟨403, by decide⟩
def notFound : Status := ⟨404, by decide⟩
def preconditionFailed : Status := ⟨412, by decide⟩
def internalServerError : Status := ⟨500, by decide⟩

end Status

namespace Files

open GoString

/-- What an `Open` or a `Stat` reports, as `http.FS` hands it on. -/
inductive FSError where
  | notExist
  | permission
  | other

structure Info where
  isDir : Bool
  /-- None for the zero time and the epoch. -/
  modTime : Option Int

/-- A file, or a directory with the page that lists it. -/
structure File where
  stat : Except FSError Info
  content : GoString

/-- A file system, by the names that `Open` takes. -/
structure FS where
  Open : GoString → Except FSError File

def FS.Stat (fsys : FS) (name : GoString) : Except FSError Info := (fsys.Open name).bind File.stat

/-- A status with the type of the body. -/
structure Reply where
  status : Status
  type : Option String
  body : GoString

/-- What the file server asks of the system and of other packages. -/
structure Mime where
  TypeByExtension : GoString → Option String
  DetectContentType : GoString → String
  ParseTime : String → Option Int
  /-- The answer to a request for ranges of the content of the type, and `none` for all of it. -/
  serveRanges : Request → File → String → Option Reply

/-! ## Conditional requests -/

section conditions

def trimString (s : List Char) : List Char :=
  let isASCIISpace : Char → Bool := fun c => c = ' ' || c = '\t' || c = '\n' || c = '\r'
  (s.dropWhile isASCIISpace).rdropWhile isASCIISpace

/-- The entity tag at the start of a text, and the rest. -/
def scanETag (s : List Char) : Option (List Char × List Char) :=
  let s := trimString s
  let start := if "W/".toList <+: s then 2 else 0
  match s.drop start with
  | '"' :: rest =>
    let text := rest.takeWhile fun c => c.val = 0x21 || (0x23 ≤ c.val && c.val ≤ 0x7E) || 0x80 ≤ c.val
    match rest.drop text.length with
    | '"' :: remain => some (s.take start ++ '"' :: text ++ ['"'], remain)
    | _ => none
  | _ => none

def etagStrongMatch (a b : List Char) : Bool := a = b && a.head? = some '"'

def etagWeakMatch (a b : List Char) : Bool :=
  let trimWeak : List Char → List Char := fun s => if "W/".toList <+: s then s.drop 2 else s
  trimWeak a = trimWeak b

/-- The list of tags has an asterisk, or one that matches, before it stops to be a list of tags. Each turn takes a character. -/
def listsTag (isMatch : List Char → Bool) : Nat → List Char → Bool
  | 0, _ => false
  | fuel + 1, s =>
    match trimString s with
    | [] => false
    | ',' :: rest => listsTag isMatch fuel rest
    | '*' :: _ => true
    | c :: rest => (scanETag (c :: rest)).any fun (etag, remain) => isMatch etag || listsTag isMatch fuel remain

def listed (isMatch : List Char → Bool) (value : String) : Bool := listsTag isMatch (value.length + 1) value.toList

variable (mime : Mime) (r : Request)

/-- `checkIfMatch`, `checkIfNoneMatch`, `checkIfUnmodifiedSince` and `checkIfModifiedSince` with `none` where they do not apply. -/
def checkIfMatch (etag : String) : Option Bool :=
  let im := r.header.get "If-Match"
  if im = "" then none else some (listed (etagStrongMatch · etag.toList) im)

def checkIfNoneMatch (etag : String) : Option Bool :=
  let inm := r.header.get "If-None-Match"
  if inm = "" then none else some (!listed (etagWeakMatch · etag.toList) inm)

def checkIfUnmodifiedSince (modTime : Option Int) : Option Bool :=
  if r.header.get "If-Unmodified-Since" = "" then none
  else modTime.bind fun m => (mime.ParseTime (r.header.get "If-Unmodified-Since")).map fun t => decide (m ≤ t)

def safe : Bool := r.method = "GET" || r.method = "HEAD"

def checkIfModifiedSince (modTime : Option Int) : Option Bool :=
  if !safe r || r.header.get "If-Modified-Since" = "" then none
  else modTime.bind fun m => (mime.ParseTime (r.header.get "If-Modified-Since")).map fun t => !decide (m ≤ t)

/-- The status of a request whose conditions do not hold. -/
def checkPreconditions (etag : String) (modTime : Option Int) : Option Status :=
  if ((checkIfMatch r etag).or (checkIfUnmodifiedSince mime r modTime)) = some false then some .preconditionFailed
  else
    match checkIfNoneMatch r etag with
    | some false => some (if safe r then .notModified else .preconditionFailed)
    | some true => none
    | none => if checkIfModifiedSince mime r modTime = some false then some .notModified else none

end conditions

/-! ## Files -/

section serve

variable (mime : Mime) (fsys : FS) (r : Request)

def bare (status : Status) : Reply := ⟨status, none, []⟩

def htmlType : String := "text/html; charset=utf-8"
def plainType : String := "text/plain; charset=utf-8"

def serveError : FSError → Reply
  | .notExist => ⟨.notFound, some plainType, lit "404 page not found\n"⟩
  | .permission => ⟨.forbidden, some plainType, lit "403 Forbidden\n"⟩
  | .other => ⟨.internalServerError, some plainType, lit "500 Internal Server Error\n"⟩

/-- The type of a file by its name, or by its first bytes. -/
def typeOf (name : GoString) (content : GoString) : String :=
  (mime.TypeByExtension (Path.ext name)).getD (mime.DetectContentType (content.take 512))

def serveContent (h : Header) (name : GoString) (file : File) (modTime : Option Int) : Reply :=
  match checkPreconditions mime r (h.get "Etag") modTime with
  | some status => bare status
  | none =>
    let type := (h "Content-Type").elim (typeOf mime name file.content) fun types => types.headD ""
    if r.header.get "Range" = "" then ⟨.ok, some type, file.content⟩
    else (mime.serveRanges r file type).getD ⟨.ok, some type, file.content⟩

/-- A directory without an index. -/
def dirList (file : File) (modTime : Option Int) : Reply :=
  if checkIfModifiedSince mime r modTime = some false then bare .notModified else ⟨.ok, some htmlType, file.content⟩

def indexPage : GoString := lit "/index.html"

/-- The name that `http.FS` opens for a clean path. -/
def fsName (path : GoString) : GoString := if path = [slash] then lit "." else path.drop 1

/-- `url` is the path with its leading slash. -/
def serveFile (h : Header) (url : GoString) (path : GoString) : Reply :=
  if indexPage <:+ url then bare .movedPermanently
  else
    match fsys.Open (fsName path) with
    | .error err => serveError err
    | .ok file =>
      match file.stat with
      | .error err => serveError err
      | .ok d =>
        if d.isDir then
          if ¬ [slash] <:+ url then bare .movedPermanently
          else
            let index := trimSuffix path [slash] ++ indexPage
            match fsys.Open (fsName index) with
            | .error _ => dirList mime r file d.modTime
            | .ok file' =>
              match file'.stat with
              | .error _ => dirList mime r file d.modTime
              | .ok d' => if d'.isDir then dirList mime r file' d'.modTime else serveContent mime r h index file' d'.modTime
        else if [slash] <:+ url then
          if Path.base url = lit "/" ∨ Path.base url = lit "." then
            ⟨.internalServerError, some plainType, lit "http: attempting to traverse a non-directory\n"⟩
          else bare .movedPermanently
        else serveContent mime r h path file d.modTime

/-- The path with a slash before it. -/
def rooted (p : GoString) : GoString := if [slash] <+: p then p else slash :: p

namespace Reply

/-- Redirects and refusals write no body, and a HEAD request gets none of the content. -/
def onto (reply : Reply) (w : Response) : Response :=
  let w := { w with header := reply.type.elim w.header (w.header.set "Content-Type") }.writeHeader reply.status
  if r.method = "HEAD" then w else w.write reply.body

end Reply

def FileServer (w : Response) : Response :=
  (serveFile mime fsys r w.header (rooted r.path) (Path.clean r.path)).onto r w

end serve

/-! ## What is sent -/

section sent

variable {r : Request} {w w' : Response} {reply : Reply} {h h' : Header}

/-- A final status is sent with the type, and the body below it unless there is none. -/
theorem onto_fresh (hsent : w.sent = none) (hbody : w.body = []) (hfinal : reply.status.informational = false) :
    (reply.onto r w).answer = ⟨reply.status, reply.type.elim w.header (w.header.set "Content-Type")⟩ ∧
      (reply.onto r w).body = if r.method = "HEAD" ∨ reply.status.bodyAllowed = false then [] else reply.body := by
  let w₁ : Response := { w with header := reply.type.elim w.header (w.header.set "Content-Type") }
  have hw₁ : w₁.writeHeader reply.status = { w₁ with sent := some ⟨reply.status, w₁.header⟩ } :=
    Response.writeHeader_unsent (w := w₁) hsent hfinal
  have honto : reply.onto r w = if r.method = "HEAD" then w₁.writeHeader reply.status else (w₁.writeHeader reply.status).write reply.body := rfl
  rw [honto, hw₁]
  split
  · rename_i hhead
    exact ⟨rfl, by rw [if_pos (.inl hhead)]; exact hbody⟩
  · rename_i hhead
    refine ⟨Response.answer_of_sent ((Response.write_sent _).trans (congrArg _ (Response.writeHeader_sent rfl .ok))), ?_⟩
    unfold Response.write
    rw [Response.writeHeader_sent rfl]
    split
    · rename_i hallowed
      rw [if_neg (by rw [show reply.status.bodyAllowed = true from hallowed]; simp [hhead])]
      exact congrArg (· ++ reply.body) hbody
    · rename_i hallowed
      rw [if_pos (.inr (Bool.eq_false_iff.2 hallowed))]
      exact hbody

/-- Two writers that agree on the keys and in what was sent. -/
structure Agrees (keys : List String) (w w' : Response) : Prop where
  header : ∀ key ∈ keys, w.header key = w'.header key
  status : w.sent.map Answer.status = w'.sent.map Answer.status
  sent : ∀ key ∈ keys, w.sent.map (·.header key) = w'.sent.map (·.header key)
  body : w.body = w'.body

namespace Agrees

variable {keys : List String}

theorem answer_status (h : Agrees keys w w') : w.answer.status = w'.answer.status := by
  have hstatus := h.status
  unfold Response.answer
  cases hw : w.sent <;> cases hw' : w'.sent <;> rw [hw, hw'] at hstatus
  · rfl
  · cases hstatus
  · cases hstatus
  · exact Option.some.inj hstatus

theorem answer_header (h : Agrees keys w w') {key : String} (hkey : key ∈ keys) : w.answer.header key = w'.answer.header key := by
  have hsent := h.sent key hkey
  unfold Response.answer
  cases hw : w.sent <;> cases hw' : w'.sent <;> rw [hw, hw'] at hsent
  · exact h.header key hkey
  · cases hsent
  · cases hsent
  · exact Option.some.inj hsent

theorem writeHeader (h : Agrees keys w w') (status : Status) : Agrees keys (w.writeHeader status) (w'.writeHeader status) := by
  have hsome : w.sent.isSome = w'.sent.isSome := by
    have := congrArg Option.isSome h.status
    rwa [Option.isSome_map, Option.isSome_map] at this
  unfold Response.writeHeader
  rw [hsome]
  split
  · exact h
  · split
    · exact ⟨h.header, h.status, h.sent, h.body⟩
    · exact ⟨h.header, rfl, fun key hkey => congrArg some (h.header key hkey), h.body⟩

theorem write (h : Agrees keys w w') (b : GoString) : Agrees keys (w.write b) (w'.write b) := by
  have hok := h.writeHeader .ok
  unfold Response.write
  rw [h.answer_status]
  split
  · exact ⟨hok.header, hok.status, hok.sent, congrArg (· ++ b) h.body⟩
  · exact hok

theorem onto (h : Agrees keys w w') (reply : Reply) : Agrees keys (reply.onto r w) (reply.onto r w') := by
  have hheader : ∀ key ∈ keys, (reply.type.elim w.header (w.header.set "Content-Type")) key =
      (reply.type.elim w'.header (w'.header.set "Content-Type")) key := by
    intro key hkey
    cases reply.type with
    | none => exact h.header key hkey
    | some type => simp only [Option.elim, Header.set, Function.update_apply, h.header key hkey]
  have htyped : Agrees keys { w with header := reply.type.elim w.header (w.header.set "Content-Type") }
      { w' with header := reply.type.elim w'.header (w'.header.set "Content-Type") } := ⟨hheader, h.status, h.sent, h.body⟩
  have hw := htyped.writeHeader reply.status
  unfold Reply.onto
  split
  · exact hw
  · exact hw.write reply.body

end Agrees

/-- A key that was never set. -/
structure Unset (key : String) (w : Response) : Prop where
  header : w.header key = none
  sent : ∀ a, w.sent = some a → a.header key = none

namespace Unset

variable {key : String}

theorem answer (h : Unset key w) : w.answer.header key = none := by
  unfold Response.answer
  cases hsent : w.sent with
  | none => exact h.header
  | some a => exact h.sent a hsent

theorem writeHeader (h : Unset key w) (status : Status) : Unset key (w.writeHeader status) := by
  unfold Response.writeHeader
  split
  · exact h
  · split
    · exact ⟨h.header, h.sent⟩
    · exact ⟨h.header, fun a ha => by cases ha; exact h.header⟩

theorem write (h : Unset key w) (b : GoString) : Unset key (w.write b) := by
  have hok := h.writeHeader .ok
  unfold Response.write
  split
  · exact ⟨hok.header, hok.sent⟩
  · exact hok

theorem onto (h : Unset key w) (hkey : key ≠ "Content-Type") (reply : Reply) : Unset key (reply.onto r w) := by
  have hheader : (reply.type.elim w.header (w.header.set "Content-Type")) key = none := by
    cases reply.type with
    | none => exact h.header
    | some type => exact (Function.update_of_ne hkey _ _).trans h.header
  have htyped : Unset key { w with header := reply.type.elim w.header (w.header.set "Content-Type") } := ⟨hheader, h.sent⟩
  have hw := htyped.writeHeader reply.status
  unfold Reply.onto
  split
  · exact hw
  · exact hw.write reply.body

end Unset

/-- The server reads no other key of the header map. -/
theorem serveFile_congr {mime : Mime} {fsys : FS} {url path : GoString} (htag : h.get "Etag" = h'.get "Etag")
    (htype : h "Content-Type" = h' "Content-Type") : serveFile mime fsys r h url path = serveFile mime fsys r h' url path := by
  have hcontent : ∀ name file modTime, serveContent mime r h name file modTime = serveContent mime r h' name file modTime := by
    intro name file modTime
    unfold serveContent
    rw [htag, htype]
  unfold serveFile
  simp only [hcontent]

end sent

/-! ## A plain name -/

section plain

variable {mime : Mime} {fsys : FS} {r : Request} {h : Header} {name : GoString} {file : File} {d : Info}

/-- A clean path that does not end with a slash: a redirect for an index page or a directory, and else the content. -/
theorem serveFile_plain (hslash : ¬ [slash] <:+ slash :: name) (hopen : fsys.Open name = .ok file) (hstat : file.stat = .ok d) :
    serveFile mime fsys r h (slash :: name) (slash :: name) =
      if indexPage <:+ slash :: name ∨ d.isDir = true then bare .movedPermanently else serveContent mime r h (slash :: name) file d.modTime := by
  have hname : fsName (slash :: name) = name := by
    rw [fsName, if_neg, List.drop_succ_cons, List.drop_zero]
    intro hroot
    rw [hroot] at hslash
    exact hslash List.suffix_rfl
  unfold serveFile
  rw [hname, hopen]
  split
  · rename_i hindex
    rw [if_pos (.inl hindex)]
  · rename_i hindex
    simp only [hstat]
    cases hdir : d.isDir with
    | true => simp
    | false => simp [hindex]

theorem serveContent_whole (hrange : r.header.get "Range" = "") (htype : h "Content-Type" = none) (modTime : Option Int) :
    serveContent mime r h name file modTime = (checkPreconditions mime r (h.get "Etag") modTime).elim
      ⟨.ok, some (typeOf mime name file.content), file.content⟩ bare := by
  unfold serveContent
  cases checkPreconditions mime r (h.get "Etag") modTime with
  | none => simp only [htype, hrange, if_pos, Option.elim]
  | some status => rfl

end plain

end Files

end Ploykit.Http

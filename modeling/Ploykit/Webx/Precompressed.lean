import Ploykit.Platform.FileServer
import Ploykit.Webx.AcceptEncoding
import Ploykit.Webx.CacheControl

/-!
# Precompressed

`Precompressed` of `platform/webx/precompressed.go` over `http.FileServer`. The decoder of brotli is
any function.
-/

namespace Ploykit.Webx.Brotli

open GoString Http Files

def lowerByte (c : UInt8) : UInt8 := if 'A'.toUInt8 ≤ c && c ≤ 'Z'.toUInt8 then c + 32 else c

def contentTypeFor (name : GoString) : String :=
  let ext := (Path.ext name).map lowerByte
  if ext = lit ".js" ∨ ext = lit ".mjs" then "text/javascript; charset=utf-8"
  else if ext = lit ".css" then "text/css; charset=utf-8"
  else if ext = lit ".html" ∨ ext = lit ".htm" then "text/html; charset=utf-8"
  else if ext = lit ".json" then "application/json"
  else if ext = lit ".svg" then "image/svg+xml"
  else if ext = lit ".xml" then "application/xml"
  else if ext = lit ".txt" then "text/plain; charset=utf-8"
  else if ext = lit ".map" then "application/json"
  else "application/octet-stream"

def backslash : UInt8 := '\\'.toUInt8

section layer

variable (nonpositive : List Char → Bool) (fsys : FS) (next : Request → Response → Response) (r : Request) (w : Response)

/-- The request asks for the whole file, by GET or HEAD, and its first line accepts brotli. -/
def asks : Bool := Files.safe r && r.header.get "Range" = "" && AcceptEncoding.acceptsBrotli nonpositive (r.header.get "Accept-Encoding")

/-- The name that the path addresses as it stands. -/
def addressed : Option GoString :=
  let name := (Path.clean r.path).drop 1
  if Path.clean r.path = Files.rooted r.path ∧ name ≠ [] ∧ name ≠ lit "." ∧ ¬ [slash] <:+ name ∧ backslash ∉ name then some name else none

def announce : Response :=
  if Caching.hasVaryToken w.header "Accept-Encoding" then w else { w with header := w.header.add "Vary" "Accept-Encoding" }

/-- The sidecar as the encoded representation of the file. -/
def encoded (name : GoString) (side : File) : Response :=
  let h := ((w.header.set "Content-Type" (contentTypeFor name)).set "Content-Encoding" "br").set "Content-Length" (toString side.content.length)
  let w := { w with header := h }.writeHeader .ok
  if r.method = "HEAD" then w else w.write side.content

/-- The sidecar that is served: it and the file it stands beside are there. -/
def sidecar (name : GoString) : Option File :=
  match fsys.Open (name ++ lit ".br") with
  | .error _ => none
  | .ok side =>
    match side.stat with
    | .error _ => none
    | .ok st =>
      if st.isDir then none
      else
        match fsys.Stat name with
        | .error _ => none
        | .ok _ => some side

def Precompressed : Response :=
  let w := announce w
  if !asks nonpositive r then next r w
  else
    match addressed r with
    | none => next r w
    | some name =>
      match sidecar fsys name with
      | none => next r w
      | some side => encoded r w name side

end layer

/-! ## The same resource -/

section same

variable (brotli : GoString → Option GoString)

/-- The body with its encoding undone. The answer to a HEAD request has none. -/
def undone (r : Request) (w : Response) : Option GoString :=
  if w.answer.header.get "Content-Encoding" = "br" ∧ r.method ≠ "HEAD" then brotli w.body else some w.body

structure SameResource (r : Request) (got plain : Response) : Prop where
  status : got.answer.status = plain.answer.status
  type : got.answer.header.get "Content-Type" = plain.answer.header.get "Content-Type"
  body : undone brotli r got = some plain.body
  accepted : got.answer.header.get "Content-Encoding" = "br" → AcceptEncoding.Accepts (r.header.values "Accept-Encoding")

/-- Each sidecar decodes to the file that it accompanies. -/
def Sidecars (fsys : FS) : Prop :=
  ∀ name side file, fsys.Open (name ++ lit ".br") = .ok side → fsys.Open name = .ok file → brotli side.content = some file.content

/-- A file with a sidecar, and a request that gets it. -/
structure Served (nonpositive : List Char → Bool) (fsys : FS) (r : Request) (name : GoString) (side file : File) (d : Info) : Prop where
  asks : asks nonpositive r = true
  addressed : addressed r = some name
  sidecar : sidecar fsys name = some side
  opened : fsys.Open name = .ok file
  info : file.stat = .ok d

/-- The file server neither redirects nor answers by the conditions of the request, gives the file the type that the layer gives
it, and nothing beside the first element for brotli refuses it or is malformed. -/
structure Alike (mime : Mime) (r : Request) (name : GoString) (file : File) (d : Info) : Prop where
  index : ¬ indexPage <:+ slash :: name
  isFile : d.isDir = false
  unconditional : checkPreconditions mime r "" d.modTime = none
  type : typeOf mime (slash :: name) file.content = contentTypeFor name
  consistent : AcceptEncoding.Consistent (r.header.values "Accept-Encoding")

/-- A writer of a new request. -/
def fresh : Response := { header := Header.empty }

variable {nonpositive : List Char → Bool} {mime : Mime} {fsys : FS} {r : Request} {name : GoString} {side file : File} {d : Info}
variable {next : Request → Response → Response}

theorem addressed_some (h : addressed r = some name) : Path.clean r.path = slash :: name ∧ Files.rooted r.path = slash :: name ∧
    ¬ [slash] <:+ slash :: name := by
  simp only [addressed] at h
  split at h
  · rename_i hname
    cases h
    have hclean : Path.clean r.path = slash :: (Path.clean r.path).drop 1 := rfl
    refine ⟨hclean, hname.1.symm.trans hclean, fun hslash => ?_⟩
    rcases List.suffix_cons_iff.1 hslash with heq | hsuffix
    · exact hname.2.1 (List.cons.inj heq).2.symm
    · exact hname.2.2.2.1 hsuffix
  · cases h

theorem asks_range (h : asks nonpositive r = true) : r.header.get "Range" = "" := by
  simp only [asks, Bool.and_eq_true, decide_eq_true_eq] at h
  exact h.1.2

theorem asks_accepts (h : asks nonpositive r = true) :
    AcceptEncoding.acceptsBrotli nonpositive ((r.header.values "Accept-Encoding").headD "") = true := by
  simp only [asks, Bool.and_eq_true] at h
  exact h.2

theorem precompressed_served (h : Served nonpositive fsys r name side file d) (w : Response) :
    Precompressed nonpositive fsys next r w = encoded r (announce w) name side := by
  simp only [Precompressed, h.asks, h.addressed, h.sidecar, Bool.not_true, Bool.false_eq_true, if_false]

theorem sidecar_some (h : sidecar fsys name = some side) : fsys.Open (name ++ lit ".br") = .ok side ∧
    ∃ file d, fsys.Open name = .ok file ∧ file.stat = .ok d := by
  unfold sidecar FS.Stat at h
  cases hside : fsys.Open (name ++ lit ".br") with
  | error err => rw [hside] at h; cases h
  | ok side' =>
    rw [hside] at h
    simp only at h
    cases hst : side'.stat with
    | error err => rw [hst] at h; cases h
    | ok st =>
      rw [hst] at h
      simp only at h
      split at h
      · cases h
      · cases hopen : fsys.Open name with
        | error err => rw [hopen] at h; cases h
        | ok file =>
          rw [hopen] at h
          cases hstat : file.stat with
          | error err => simp [Except.bind, hstat] at h
          | ok d =>
            simp only [Except.bind, hstat, Option.some.injEq] at h
            exact ⟨congrArg _ h, file, d, rfl, hstat⟩

/-- Every other request is passed on. -/
theorem precompressed_passed (h : ¬ ∃ name side file d, Served nonpositive fsys r name side file d) (w : Response) :
    Precompressed nonpositive fsys next r w = next r (announce w) := by
  unfold Precompressed
  split
  · rfl
  · rename_i hasks
    cases haddressed : addressed r with
    | none => rfl
    | some name =>
      cases hsidecar : sidecar fsys name with
      | none => simp only [hsidecar]
      | some side =>
        obtain ⟨-, file, d, hopen, hstat⟩ := sidecar_some hsidecar
        exact absurd ⟨name, side, file, d, by simpa using hasks, haddressed, hsidecar, hopen, hstat⟩ h

theorem encoded_fresh (name : GoString) (side : File) :
    (encoded r (announce fresh) name side).answer.status = .ok ∧
      (encoded r (announce fresh) name side).answer.header.get "Content-Type" = contentTypeFor name ∧
      (encoded r (announce fresh) name side).answer.header.get "Content-Encoding" = "br" ∧
      (encoded r (announce fresh) name side).body = if r.method = "HEAD" then [] else side.content := by
  have hannounce : announce fresh = { fresh with header := fresh.header.add "Vary" "Accept-Encoding" } := if_neg (by decide)
  rw [hannounce]
  unfold encoded
  split
  · exact ⟨rfl, rfl, rfl, rfl⟩
  · exact ⟨rfl, rfl, rfl, rfl⟩

/-- The file server alone on a request that gets the sidecar. -/
theorem fileServer_served (mime : Mime) (h : Served nonpositive fsys r name side file d) :
    FileServer mime fsys r fresh = (if indexPage <:+ slash :: name ∨ d.isDir = true then bare .movedPermanently
      else (checkPreconditions mime r "" d.modTime).elim ⟨.ok, some (typeOf mime (slash :: name) file.content), file.content⟩ bare).onto r fresh := by
  obtain ⟨hclean, hrooted, hslash⟩ := addressed_some h.addressed
  rw [FileServer, hrooted, hclean, serveFile_plain hslash h.opened h.info, serveContent_whole (asks_range h.asks) rfl]
  rfl

theorem preconditions_status {modTime : Option Int} {status : Status} (h : checkPreconditions mime r "" modTime = some status) :
    status ≠ .ok ∧ status.informational = false := by
  have hcases : status = .notModified ∨ status = .preconditionFailed := by
    unfold checkPreconditions at h
    split at h
    · cases h
      exact .inr rfl
    · split at h
      · split at h <;> cases h
        · exact .inl rfl
        · exact .inr rfl
      · cases h
      · split at h <;> cases h
        exact .inl rfl
  rcases hcases with rfl | rfl <;> decide

/-- The server sets no encoding. -/
theorem unset_encoding : Unset "Content-Encoding" (FileServer mime fsys r (announce fresh)) := by
  have hannounce : announce fresh = { fresh with header := fresh.header.add "Vary" "Accept-Encoding" } := if_neg (by decide)
  have hunset : Unset "Content-Encoding" (announce fresh) := by
    rw [hannounce]
    exact ⟨rfl, fun a ha => by cases ha⟩
  exact hunset.onto (by decide) _

/-- That the negotiation is announced changes nothing else. -/
theorem agrees_announced : Agrees ["Content-Type"] (FileServer mime fsys r (announce fresh)) (FileServer mime fsys r fresh) := by
  have hannounce : announce fresh = { fresh with header := fresh.header.add "Vary" "Accept-Encoding" } := if_neg (by decide)
  have hagrees : Agrees ["Content-Type"] (announce fresh) fresh := by
    rw [hannounce]
    refine ⟨fun key hkey => ?_, rfl, fun key _ => rfl, rfl⟩
    rw [List.mem_singleton.1 hkey]
    rfl
  have hserve : serveFile mime fsys r (announce fresh).header (Files.rooted r.path) (Path.clean r.path) =
      serveFile mime fsys r fresh.header (Files.rooted r.path) (Path.clean r.path) := by
    rw [hannounce]
    exact serveFile_congr rfl rfl
  rw [FileServer, hserve]
  exact hagrees.onto _

/-- A request that is passed on. -/
theorem same_passed : SameResource brotli r (FileServer mime fsys r (announce fresh)) (FileServer mime fsys r fresh) := by
  have hagrees : Agrees ["Content-Type"] (FileServer mime fsys r (announce fresh)) (FileServer mime fsys r fresh) := agrees_announced
  have hencoding : (FileServer mime fsys r (announce fresh)).answer.header.get "Content-Encoding" = "" := by
    rw [Header.get, Header.values, unset_encoding.answer]
    rfl
  have htype := hagrees.answer_header List.mem_cons_self
  refine ⟨hagrees.answer_status, ?_, ?_, fun h => ?_⟩
  · rw [Header.get, Header.values, htype]
    rfl
  · rw [undone, if_neg (by rw [hencoding]; exact fun h => absurd h.1 (by decide)), hagrees.body]
  · rw [hencoding] at h
    exact absurd h (by decide)

theorem fresh_status {reply : Reply} (hfinal : reply.status.informational = false) : (reply.onto r fresh).answer.status = reply.status :=
  congrArg Answer.status (onto_fresh rfl rfl hfinal).1

theorem whole_fresh (r : Request) (type : String) (content : GoString) :
    (Reply.onto r ⟨.ok, some type, content⟩ fresh).answer = ⟨.ok, fresh.header.set "Content-Type" type⟩ ∧
      (Reply.onto r ⟨.ok, some type, content⟩ fresh).body = if r.method = "HEAD" ∨ Status.ok.bodyAllowed = false then [] else content :=
  onto_fresh rfl rfl rfl

/-- A request that gets the sidecar. -/
theorem same_served (hfloat : ∀ v, AcceptEncoding.QValue v → nonpositive v = AcceptEncoding.isZero v) (hsidecars : Sidecars brotli fsys)
    (h : Served nonpositive fsys r name side file d) :
    SameResource brotli r (encoded r (announce fresh) name side) (FileServer mime fsys r fresh) ↔ Alike mime r name file d := by
  obtain ⟨hstatus, htype, hencoding, hbody⟩ := encoded_fresh (r := r) name side
  have hserver := fileServer_served mime h
  have haccepts := AcceptEncoding.accepts_iff hfloat (asks_accepts h.asks)
  have hdecode := hsidecars name side file (sidecar_some h.sidecar).1 h.opened
  constructor
  · intro hsame
    have hok : (FileServer mime fsys r fresh).answer.status = .ok := hsame.status.symm.trans hstatus
    have hplain : ¬ (indexPage <:+ slash :: name ∨ d.isDir = true) := by
      intro hredirect
      rw [hserver, if_pos hredirect, fresh_status (by decide)] at hok
      exact absurd hok (by decide)
    rw [hserver, if_neg hplain] at hok
    have hconditions : checkPreconditions mime r "" d.modTime = none := by
      cases hcheck : checkPreconditions mime r "" d.modTime with
      | none => rfl
      | some status =>
        obtain ⟨hne, hfinal⟩ := preconditions_status hcheck
        rw [hcheck] at hok
        have hstatus : ((bare status).onto r fresh).answer.status = status := fresh_status hfinal
        exact absurd (hstatus.symm.trans hok) hne
    have htypes := hsame.type
    rw [htype, hserver, if_neg hplain, hconditions] at htypes
    refine ⟨fun hindex => hplain (.inl hindex), Bool.eq_false_iff.2 fun hdir => hplain (.inr hdir), hconditions, ?_,
      haccepts.1 (hsame.accepted hencoding)⟩
    rw [htypes, Option.elim, (onto_fresh rfl rfl rfl).1]
    simp only [Option.elim, Header.get_set_self]
  · intro halike
    have hplain : ¬ (indexPage <:+ slash :: name ∨ d.isDir = true) := by
      rw [halike.isFile]
      simpa using halike.index
    rw [hserver, if_neg hplain, halike.unconditional]
    obtain ⟨hanswer, hcontent⟩ := whole_fresh r (typeOf mime (slash :: name) file.content) file.content
    refine ⟨?_, ?_, ?_, fun _ => haccepts.2 halike.consistent⟩
    · rw [hstatus, Option.elim, hanswer]
    · rw [htype, Option.elim, hanswer, ← halike.type]
      rw [Header.get_set_self]
    · rw [undone, hencoding, hbody, Option.elim, hcontent]
      by_cases hhead : r.method = "HEAD"
      · simp [hhead]
      · simp [hhead, hdecode, Status.bodyAllowed, Status.ok]

/-- The compressed copy is the same resource exactly if every sidecar that the request gets is alike. -/
theorem precompressed_iff (hfloat : ∀ v, AcceptEncoding.QValue v → nonpositive v = AcceptEncoding.isZero v) (hsidecars : Sidecars brotli fsys)
    (mime : Mime) (r : Request) :
    SameResource brotli r (Precompressed nonpositive fsys (FileServer mime fsys) r fresh) (FileServer mime fsys r fresh) ↔
      ∀ name side file d, Served nonpositive fsys r name side file d → Alike mime r name file d := by
  constructor
  · intro hsame name side file d h
    rw [precompressed_served h] at hsame
    exact (same_served brotli hfloat hsidecars h).1 hsame
  · intro halike
    by_cases hserved : ∃ name side file d, Served nonpositive fsys r name side file d
    · obtain ⟨name, side, file, d, h⟩ := hserved
      rw [precompressed_served h]
      exact (same_served brotli hfloat hsidecars h).2 (halike name side file d h)
    · rw [precompressed_passed hserved]
      exact same_passed brotli

end same

/-- A file without content and its sidecar. -/
def emptyFile (ext : String) : FS where
  Open name :=
    if name = lit "a" ++ lit ext then .ok ⟨.ok ⟨false, none⟩, []⟩
    else if name = lit "a" ++ lit ext ++ lit ".br" then .ok ⟨.ok ⟨false, none⟩, [6]⟩
    else .error .notExist

def emptyStream (b : GoString) : Option GoString := if b = [6] then some [] else none

def builtinTypes : Mime where
  TypeByExtension ext := if ext = lit ".css" then some "text/css; charset=utf-8" else if ext = lit ".xml" then some "text/xml; charset=utf-8" else none
  DetectContentType _ := "text/plain; charset=utf-8"
  ParseTime _ := none
  serveRanges _ _ _ := none

def get (path : String) (lines : List String) : Request :=
  { method := "GET", path := lit path, header := fun key => if key = "Accept-Encoding" then some lines else none }

theorem sidecars_emptyFile {ext : String} (hext : (lit "a" ++ lit ext).getLast? ≠ (lit ".br").getLast?) :
    Sidecars emptyStream (emptyFile ext) := by
  intro name side file hside hfile
  simp only [emptyFile] at hside hfile
  split at hside
  · rename_i hname
    have hlast := congrArg List.getLast? hname
    rw [List.getLast?_append_of_ne_nil _ (by decide)] at hlast
    exact absurd hlast.symm hext
  · split at hside
    · rename_i hname
      cases hside
      rw [if_pos (List.append_cancel_right hname)] at hfile
      cases hfile
      rfl
    · cases hside

theorem consistent_lines : AcceptEncoding.Consistent ["gzip, br;q=0.5", "identity"] := by
  have hgzip : AcceptEncoding.Element ([] ++ "gzip".toList ++ []) (some ⟨"gzip".toList, ['1']⟩) :=
    .plain (by simp) (by decide) (List.all_eq_true.1 (by decide)) (by simp)
  have hbr : AcceptEncoding.Element ([' '] ++ ("br".toList ++ [] ++ ';' :: ([] ++ 'q' :: '=' :: '0' :: '.' :: ['5'])) ++ [])
      (some ⟨"br".toList, "0.5".toList⟩) :=
    .weighted (by simp [AcceptEncoding.isOWS]) (by decide) (List.all_eq_true.1 (by decide)) (by simp) (by simp) (.inl rfl)
      (.fraction (by decide) (by simp)) (by simp)
  have hidentity : AcceptEncoding.Element ([] ++ "identity".toList ++ []) (some ⟨"identity".toList, ['1']⟩) :=
    .plain (by simp) (by decide) (List.all_eq_true.1 (by decide)) (by simp)
  exact ⟨_, .cons hgzip (.cons hbr (.cons hidentity .nil)), by decide⟩

/-- A style sheet is served encoded to a client that prefers another coding. -/
theorem sheet_encoded : SameResource emptyStream (get "/a.css" ["gzip, br;q=0.5", "identity"])
    (Precompressed AcceptEncoding.isZero (emptyFile ".css") (FileServer builtinTypes (emptyFile ".css")) (get "/a.css" ["gzip, br;q=0.5", "identity"]) fresh)
    (FileServer builtinTypes (emptyFile ".css") (get "/a.css" ["gzip, br;q=0.5", "identity"]) fresh) := by
  refine (precompressed_iff emptyStream (fun _ _ => rfl) (sidecars_emptyFile (by decide)) builtinTypes _).2 fun name side file d h => ?_
  have hname : name = lit "a.css" := Option.some.inj (h.addressed.symm.trans (by decide))
  subst hname
  have hfile : file = ⟨.ok ⟨false, none⟩, []⟩ := (Except.ok.inj (h.opened.symm.trans rfl))
  subst hfile
  have hd : d = ⟨false, none⟩ := Except.ok.inj (h.info.symm.trans rfl)
  subst hd
  exact ⟨by decide, rfl, by decide, by decide, consistent_lines⟩

/-- The table names another type than the server has for the extension. -/
theorem xml_retyped : ¬ ∀ (nonpositive : List Char → Bool) (brotli : GoString → Option GoString) (fsys : FS) (mime : Mime) (r : Request),
    (∀ v, AcceptEncoding.QValue v → nonpositive v = AcceptEncoding.isZero v) → Sidecars brotli fsys →
      SameResource brotli r (Precompressed nonpositive fsys (FileServer mime fsys) r fresh) (FileServer mime fsys r fresh) := by
  intro h
  have htype := (h AcceptEncoding.isZero emptyStream (emptyFile ".xml") builtinTypes (get "/a.xml" ["br"]) (fun _ _ => rfl)
    (sidecars_emptyFile (by decide))).type
  exact absurd htype (by decide)

end Ploykit.Webx.Brotli

import Mathlib.Algebra.Group.Int.Defs
import Ploykit.Platform.Http

/-!
# Cache-Control

`platform/webx/assetcache.go` and `cacheprefix.go`. A duration is a number of nanoseconds,
and the digest of a path is any function of it.
-/

namespace Ploykit.Webx.Caching

open Http GoString

/-! ## Names with a fingerprint -/

def isHashBoundary (c : UInt8) : Bool := c = '-'.toUInt8 || c = '_'.toUInt8 || c = '.'.toUInt8

def isDigit (c : UInt8) : Bool := '0'.toUInt8 ≤ c && c ≤ '9'.toUInt8
def isUpper (c : UInt8) : Bool := 'A'.toUInt8 ≤ c && c ≤ 'Z'.toUInt8
def isLower (c : UInt8) : Bool := 'a'.toUInt8 ≤ c && c ≤ 'z'.toUInt8

def isAlnum (c : UInt8) : Bool := isDigit c || isLower c || isUpper c

def isFingerprint (s : GoString) : Bool :=
  s.head?.any isAlnum && s.getLast?.any isAlnum && s.all (fun c => isAlnum c || c = '-'.toUInt8 || c = '_'.toUInt8) &&
    (s.any isDigit || s.any isUpper)

def looksContentAddressed (p : GoString) : Bool :=
  let base := Path.base p
  let stem := trimSuffix base (Path.ext base)
  base ≠ lit "." && base ≠ lit "/" && stem ≠ [] &&
    (List.range' 8 9).any fun n => n ≤ stem.length &&
      (n = stem.length || (stem.drop (stem.length - n - 1)).head?.any isHashBoundary) && isFingerprint (stem.drop (stem.length - n))

/-! ## Writers that decorate -/

/-- The statuses whose answer is the whole entity: 2xx and not 206. -/
def full (s : Status) : Bool := s.success && s.code ≠ 206

/-- `assetCacheWriter` and `cachePrefixWriter`, which differ in what they do to the header map. -/
structure Writer where
  resp : Response
  wroteHeader : Bool := false

section writer

variable (decorate : Header → Header)

namespace Writer

variable (w : Writer)

def writeHeader (code : Status) : Writer :=
  if w.wroteHeader then { w with resp := w.resp.writeHeader code }
  else if full code then ⟨{ w.resp with header := decorate w.resp.header }.writeHeader code, true⟩
  else ⟨w.resp.writeHeader code, true⟩

def write (b : GoString) : Writer :=
  let w := if w.wroteHeader then w else w.writeHeader decorate .ok
  { w with resp := w.resp.write b }

/-- A response controller finds the wrapped writer, so a flush goes past the layer. -/
def act : Act → Writer
  | .header f => { w with resp := w.resp.act (.header f) }
  | .writeHeader code => w.writeHeader decorate code
  | .write b => w.write decorate b
  | .flush => { w with resp := w.resp.act .flush }

def finish : Response := if w.wroteHeader then w.resp else { w.resp with header := decorate w.resp.header }

end Writer

/-- The handler on the decorating writer. -/
def decorated (next : Handler) (w : Response) : Response :=
  (next.run (Writer.act decorate) (fun s => s.resp.header) ⟨w, false⟩).finish decorate

end writer

def assetHeaders (cacheControl etag : String) (h : Header) : Header := (h.set "Cache-Control" cacheControl).set "ETag" etag

def setHeaderIfAbsent (cacheControl : String) (h : Header) : Header :=
  if h.get "Cache-Control" = "" then h.set "Cache-Control" cacheControl else h

/-! ## The layers -/

def safe (r : Request) : Bool := r.method = "GET" || r.method = "HEAD"

def hasVaryToken (h : Header) (token : String) : Bool :=
  (h.values "Vary").any fun v => (v.splitOn ",").any fun part => Strings.equalFold (Strings.trimSpace part) token

def trimWeak (s : String) : String := (Strings.cutPrefix s "W/").getD s

def matchETag (r : Request) (tag : String) : Bool :=
  let in_ := Strings.trimSpace (r.header.get "If-None-Match")
  in_ ≠ "" && (in_ = "*" || (in_.splitOn ",").any fun part => trimWeak (Strings.trimSpace part) = trimWeak tag)

def hexDigit (n : UInt8) : Char := Char.ofNat (if n < 10 then 48 + n.toNat else 87 + n.toNat)

def hexString (b : GoString) : String := String.ofList (b.flatMap fun c => [hexDigit (c / 16), hexDigit (c % 16)])

def year : Int := 365 * 24 * 3600 * 10 ^ 9

def cacheControl (ttl : Int) : String :=
  "public, max-age=" ++ toString ((if ttl ≤ 0 then year else ttl) / 10 ^ 9) ++ ", immutable"

/-- The 304 that is answered before the handler runs. -/
def revalidated (w : Response) (value tag : String) : Response :=
  let h := assetHeaders value tag w.header
  { w with header := if hasVaryToken h "Accept-Encoding" then h else h.add "Vary" "Accept-Encoding" }.writeHeader .notModified

section layers

variable (sum256 : GoString → GoString) (next : Request → Handler) (r : Request) (w : Response)

def etag (path : GoString) : String := "\"" ++ hexString ((sum256 path).take 16) ++ "\""

def assetCache (ttl : Int) (isImmutable : GoString → Bool) : Response :=
  if safe r && isImmutable r.path then
    if matchETag r (etag sum256 r.path) then revalidated w (cacheControl ttl) (etag sum256 r.path)
    else decorated (assetHeaders (cacheControl ttl) (etag sum256 r.path)) (next r) w
  else (next r).serve w

def AssetCacheWithTTL (ttl : Int) : Response := assetCache sum256 next r w ttl looksContentAddressed

def AssetCache : Response := AssetCacheWithTTL sum256 next r w year

/-- The path with a slash before it. -/
def rooted (p : GoString) : GoString := if [slash] <+: p then p else slash :: p

/-- The path is one of the files. -/
def listed (files : List GoString) (p : GoString) : Bool := p ∈ (files.filter (· ≠ [])).map rooted

def AssetCacheManifestWithTTL (files : List GoString) (ttl : Int) : Response :=
  assetCache sum256 next r w ttl (listed files)

def AssetCacheManifest (files : List GoString) : Response := AssetCacheManifestWithTTL sum256 next r w files year

/-- What the longest prefix of the path declares, as the scan over the rules finds it. -/
def declared (rules : List (GoString × String)) (path : GoString) : String :=
  (((rules.filter fun rule => rule.1 ≠ [] && rule.2 ≠ "").map fun rule => (rooted rule.1, rule.2)).foldl
    (fun best rule => if best.2 < rule.1.length ∧ rule.1 <+: path then (rule.2, rule.1.length) else best) ("", 0)).1

/-- Of two rules that become one prefix, the one that is stored last stands first. -/
def CachePrefix (rules : List (GoString × String)) : Response :=
  if safe r && declared rules r.path ≠ "" then decorated (setHeaderIfAbsent (declared rules r.path)) (next r) w
  else (next r).serve w

inductive Layer where
  | assetCache (ttl : Int)
  | assetCacheManifest (files : List GoString) (ttl : Int)
  | cachePrefix (rules : List (GoString × String))

namespace Layer

def serve : Layer → Response
  | assetCache ttl => AssetCacheWithTTL sum256 next r w ttl
  | assetCacheManifest files ttl => AssetCacheManifestWithTTL sum256 next r w files ttl
  | cachePrefix rules => CachePrefix next r w rules

/-- On a path of the layer, the Cache-Control of a whole entity for which the handler set this one. -/
def due (r : Request) : Layer → Option (String → String)
  | assetCache ttl => if safe r && looksContentAddressed r.path then some fun _ => cacheControl ttl else none
  | assetCacheManifest files ttl =>
    if safe r && listed files r.path then some fun _ => cacheControl ttl else none
  | cachePrefix rules =>
    if safe r && declared rules r.path ≠ "" then some fun own => if own = "" then declared rules r.path else own else none

/-- The request is answered before the handler runs. -/
def revalidates (sum256 : GoString → GoString) (r : Request) : Layer → Bool
  | assetCache _ => matchETag r (etag sum256 r.path)
  | assetCacheManifest _ _ => matchETag r (etag sum256 r.path)
  | cachePrefix _ => false

end Layer

end layers

/-! ## When the declaration fits -/

/-- The response tells caches what the handler's own answer allows. -/
structure Honest (due : Option (String → String)) (own resp : Answer) : Prop where
  earned : resp.header.get "Cache-Control" = own.header.get "Cache-Control" ∨ due ≠ none ∧ full own.status = true
  carried : ∀ d, due = some d → full own.status = true → resp.header.get "Cache-Control" = d (own.header.get "Cache-Control")
  notModified : resp.status.code = 304 → own.status.code = 304 ∨ own.status.success = true

/-- An informational status or a flush comes before the handler's status and its first write. -/
def announces : Handler → Header → Bool
  | .done, _ => false
  | .act (.header f) next, h => announces (next (f h)) (f h)
  | .act (.writeHeader code) _, _ => code.informational
  | .act (.write _) _, _ => false
  | .act .flush _, _ => true

section decorated

variable {decorate : Header → Header} {w : Response} {a : Answer}

theorem full_not_informational {s : Status} (h : full s = true) : s.informational = false := by
  simp only [full, Status.success, Status.informational, Bool.and_eq_true, decide_eq_true_eq] at h ⊢
  rw [Bool.and_eq_false_iff]
  exact .inl (decide_eq_false (by omega))

/-- Once the layer has seen a status it only passes calls on. -/
theorem run_through (k : Handler) (w : Response) :
    k.run (Writer.act decorate) (fun s : Writer => s.resp.header) ⟨w, true⟩ = ⟨k.serve w, true⟩ := by
  induction k generalizing w with
  | done => rfl
  | act x next ih =>
    have hact : Writer.act decorate ⟨w, true⟩ x = ⟨w.act x, true⟩ := by cases x <;> rfl
    rw [Handler.run_act, hact, Handler.serve_act]
    exact ih _ _

/-- What is sent stays. -/
theorem run_sent (k : Handler) {s : Writer} (h : s.resp.sent = some a) :
    (k.run (Writer.act decorate) (fun s => s.resp.header) s).resp.sent = some a := by
  refine Handler.run_preserves (Writer.act decorate) (fun s => s.resp.header) (P := fun s => s.resp.sent = some a) (fun s x h => ?_) k h
  have hheader : ∀ code, (s.writeHeader decorate code).resp.sent = some a := by
    intro code
    unfold Writer.writeHeader
    split
    · exact Response.act_sent h (.writeHeader code)
    · split
      · exact Response.act_sent (w := { s.resp with header := decorate s.resp.header }) h (.writeHeader code)
      · exact Response.act_sent h (.writeHeader code)
  cases x with
  | header f => exact h
  | writeHeader code => exact hheader code
  | write b =>
    refine Response.act_sent ?_ (.write b)
    split
    · exact h
    · exact hheader .ok
  | flush => exact Response.act_sent h .flush

theorem finish_answer {s : Writer} (h : s.resp.sent = some a) : (s.finish decorate).answer = a := by
  refine Response.answer_of_sent ?_
  unfold Writer.finish
  split <;> exact h

theorem decorated_answer (k : Handler) (hw : w.sent = none) : (decorated decorate k w).answer =
    if full (k.serve w).answer.status = true ∧ announces k w.header = false then
      { (k.serve w).answer with header := decorate (k.serve w).answer.header }
    else (k.serve w).answer := by
  induction k generalizing w with
  | done =>
    have hown : w.answer = ⟨.ok, w.header⟩ := by rw [Response.answer, hw]; rfl
    have hresp : (decorated decorate .done w).answer = ⟨.ok, decorate w.header⟩ := by
      show Response.answer { w with header := decorate w.header } = _
      rw [Response.answer, hw]
      rfl
    have hfits : full (Handler.done.serve w).answer.status = true ∧ announces .done w.header = false := ⟨congrArg (full ·.status) hown, rfl⟩
    rw [hresp, if_pos hfits]
    exact congrArg (fun a : Answer => { a with header := decorate a.header }) hown.symm
  | act x next ih =>
    cases x with
    | header f => exact ih _ hw
    | writeHeader code =>
      by_cases hfull : full code = true
      · have hfinal := full_not_informational hfull
        have hown : (Handler.act (.writeHeader code) next |>.serve w).answer = ⟨code, w.header⟩ := by
          rw [Handler.serve_act, Response.act, Response.writeHeader_unsent hw hfinal]
          exact Handler.serve_answer _ rfl
        have hstep : Writer.act decorate ⟨w, false⟩ (.writeHeader code) = ⟨{ w with header := decorate w.header, sent := some ⟨code, decorate w.header⟩ }, true⟩ := by
          show Writer.writeHeader decorate ⟨w, false⟩ code = _
          rw [Writer.writeHeader, if_neg Bool.false_ne_true, if_pos hfull, Response.writeHeader_unsent (w := { w with header := decorate w.header }) hw hfinal]
        rw [decorated, Handler.run_act, hstep, run_through, hown, if_pos ⟨hfull, hfinal⟩]
        exact Handler.serve_answer _ rfl
      · have hstep : Writer.act decorate ⟨w, false⟩ (.writeHeader code) = ⟨w.writeHeader code, true⟩ := by
          show Writer.writeHeader decorate ⟨w, false⟩ code = _
          rw [Writer.writeHeader, if_neg Bool.false_ne_true, if_neg hfull]
        rw [decorated, Handler.run_act, hstep, run_through, if_neg]
        · rfl
        · rintro ⟨hstatus, hfinal⟩
          rw [Handler.serve_act, Response.act, Response.writeHeader_unsent hw hfinal, Handler.serve_answer _ rfl] at hstatus
          exact hfull hstatus
    | write b =>
      have hstep : (Writer.act decorate ⟨w, false⟩ (.write b)).resp.sent = some ⟨.ok, decorate w.header⟩ := by
        show (Response.write _ b).sent = _
        rw [Response.write_sent]
        exact Response.act_sent (congrArg Response.sent (Response.writeHeader_unsent (w := { w with header := decorate w.header }) hw rfl)) (.writeHeader .ok)
      have hown : (w.act (.write b)).sent = some ⟨.ok, w.header⟩ :=
        (Response.write_sent b).trans (congrArg Response.sent (Response.writeHeader_unsent hw rfl))
      rw [Handler.serve_act, Handler.serve_answer _ hown, if_pos ⟨rfl, rfl⟩]
      exact finish_answer (run_sent (next _) hstep)
    | flush =>
      have hown : (w.act .flush).sent = some ⟨.ok, w.header⟩ := congrArg Response.sent (Response.writeHeader_unsent hw rfl)
      rw [Handler.serve_act, Handler.serve_answer _ hown, if_neg (fun h => Bool.noConfusion h.2)]
      exact finish_answer (run_sent (next _) (s := ⟨w.act .flush, false⟩) hown)

end decorated

/-! ## Every layer -/

section layers

variable {own : Answer} {r : Request} {w : Response} {d : String → String}

theorem honest_self (own : Answer) : Honest none own own := ⟨.inl rfl, fun _ hd => absurd hd (Option.some_ne_none _).symm, Or.inl⟩

theorem success_of_full {s : Status} (h : full s = true) : s.success = true := (Bool.and_eq_true_iff.1 h).1

theorem honest_decorated {decorate : Header → Header} (hdecorate : ∀ h, (decorate h).get "Cache-Control" = d (h.get "Cache-Control"))
    (k : Handler) (hw : w.sent = none) (hown : (k.serve w).answer = own) : Honest (some d) own (decorated decorate k w).answer ↔
      (announces k w.header = true → full own.status = true → own.header.get "Cache-Control" = d (own.header.get "Cache-Control")) := by
  rw [decorated_answer k hw, hown]
  by_cases hfits : full own.status = true ∧ announces k w.header = false
  · rw [if_pos hfits]
    refine iff_of_true ⟨.inr ⟨Option.some_ne_none d, hfits.1⟩, ?_, Or.inl⟩ fun hannounces => absurd hannounces (by rw [hfits.2]; decide)
    rintro _ ⟨⟩ -
    exact hdecorate _
  · rw [if_neg hfits]
    constructor
    · intro h _ hfull
      exact h.carried d rfl hfull
    · intro h
      refine ⟨.inl rfl, ?_, Or.inl⟩
      rintro _ ⟨⟩ hfull
      exact h (Bool.of_not_eq_false fun hquiet => hfits ⟨hfull, hquiet⟩) hfull

theorem assetHeaders_get (value tag : String) (h : Header) : (assetHeaders value tag h).get "Cache-Control" = value := by
  rw [assetHeaders, Header.get_set_ne (by decide), Header.get_set_self]

theorem setHeaderIfAbsent_get (value : String) (h : Header) : (setHeaderIfAbsent value h).get "Cache-Control" =
    if h.get "Cache-Control" = "" then value else h.get "Cache-Control" := by
  unfold setHeaderIfAbsent
  split
  · exact Header.get_set_self
  · rfl

theorem revalidated_answer (value tag : String) (hw : w.sent = none) : (revalidated w value tag).answer.status = .notModified ∧
    (revalidated w value tag).answer.header.get "Cache-Control" = value := by
  unfold revalidated
  rw [Response.writeHeader_unsent (by exact hw) rfl]
  refine ⟨rfl, ?_⟩
  show Header.get (if _ then _ else _) _ = value
  split
  · exact assetHeaders_get value tag w.header
  · rw [Header.get_add_ne (by decide)]
    exact assetHeaders_get value tag w.header

theorem honest_revalidated (value tag : String) (hw : w.sent = none) : Honest (some fun _ => value) own (revalidated w value tag).answer ↔
    full own.status = true ∨ own.header.get "Cache-Control" = value ∧ (own.status.code = 304 ∨ own.status.success = true) := by
  obtain ⟨hstatus, hvalue⟩ := revalidated_answer value tag hw
  constructor
  · intro h
    rcases h.earned with hearned | hearned
    · exact .inr ⟨hearned.symm.trans hvalue, h.notModified (congrArg Status.code hstatus)⟩
    · exact .inl hearned.2
  · intro h
    refine ⟨?_, ?_, fun _ => ?_⟩
    · rcases h with hfull | ⟨hsame, -⟩
      · exact .inr ⟨Option.some_ne_none _, hfull⟩
      · exact .inl (hvalue.trans hsame.symm)
    · rintro _ ⟨⟩ -
      exact hvalue
    · rcases h with hfull | ⟨-, hallowed⟩
      · exact .inr (success_of_full hfull)
      · exact hallowed

/-- What a layer needs of the request and the handler. -/
def Fits (revalidates : Bool) (k : Handler) (h : Header) (own : Answer) (d : String → String) : Prop :=
  if revalidates then full own.status = true ∨
    own.header.get "Cache-Control" = d (own.header.get "Cache-Control") ∧ (own.status.code = 304 ∨ own.status.success = true)
  else announces k h = true → full own.status = true → own.header.get "Cache-Control" = d (own.header.get "Cache-Control")

variable (sum256 : GoString → GoString) (next : Request → Handler)

theorem assetCache_honest (r : Request) (hw : w.sent = none) (ttl : Int) (isImmutable : GoString → Bool)
    (hown : ((next r).serve w).answer = own) :
    Honest (if safe r && isImmutable r.path then some fun _ => cacheControl ttl else none) own
      (assetCache sum256 next r w ttl isImmutable).answer ↔
    ∀ d, (if safe r && isImmutable r.path then some fun _ => cacheControl ttl else none) = some d →
      Fits (matchETag r (etag sum256 r.path)) (next r) w.header own d := by
  unfold assetCache
  by_cases hpath : (safe r && isImmutable r.path) = true
  · rw [if_pos hpath, if_pos hpath]
    simp only [Option.some.injEq, forall_eq']
    unfold Fits
    split
    · exact honest_revalidated _ _ hw
    · exact honest_decorated (assetHeaders_get _ _) (next r) hw hown
  · rw [if_neg hpath, if_neg hpath, hown]
    exact iff_of_true (honest_self own) fun _ hd => absurd hd (Option.some_ne_none _).symm

/-- A layer tells caches what the answer of the handler allows exactly if a matching condition meets an answer with the whole
entity, and no informational status and no flush comes before such an answer that lacks what is due. -/
theorem honest_iff (L : Layer) (r : Request) (h : Header) :
    Honest (L.due r) ((next r).serve { header := h }).answer (L.serve sum256 next r { header := h }).answer ↔
    ∀ d, L.due r = some d → Fits (L.revalidates sum256 r) (next r) h ((next r).serve { header := h }).answer d := by
  cases L with
  | assetCache ttl => exact assetCache_honest sum256 next r (w := { header := h }) rfl ttl looksContentAddressed rfl
  | assetCacheManifest files ttl => exact assetCache_honest sum256 next r (w := { header := h }) rfl ttl (listed files) rfl
  | cachePrefix rules =>
    by_cases hpath : (safe r && declared rules r.path ≠ "") = true
    · rw [Layer.due, Layer.serve, CachePrefix, if_pos hpath, if_pos hpath]
      simp only [Option.some.injEq, forall_eq']
      exact honest_decorated (setHeaderIfAbsent_get _) (next r) (w := { header := h }) rfl rfl
    · rw [Layer.due, Layer.serve, CachePrefix, if_neg hpath, if_neg hpath]
      exact iff_of_true (honest_self _) fun _ hd => absurd hd (Option.some_ne_none _).symm

theorem status_notFound : 100 ≤ 404 ∧ 404 ≤ 999 := by decide

def notFound : Handler := .act (.writeHeader ⟨404, status_notFound⟩) fun _ => .done

/-- With `If-None-Match: *` an asset that is gone is answered 304, for a year. -/
theorem missing_revalidated : ¬ ∀ (L : Layer) (r : Request) (k : Handler),
    Honest (L.due r) (k.serve { header := .empty }).answer (L.serve (fun _ => []) (fun _ => k) r { header := .empty }).answer := by
  intro h
  have hhonest := h (.assetCache year) ⟨"GET", lit "/assets/app-4f9a2b1c.js", Header.empty.set "If-None-Match" "*"⟩ notFound
  exact absurd (hhonest.notModified (by decide)) (by decide)

end layers

end Ploykit.Webx.Caching

import Ploykit.Platform.GoString
import Ploykit.Platform.Text

/-!
# net/http

What handlers see of a request, and what their calls to a response writer send. Keys of
header maps are in canonical form. A handler decides after each call by the header map it finds.
-/

namespace Ploykit.Http

abbrev Header := String → Option (List String)

namespace Header

def empty : Header := fun _ => none

def values (h : Header) (key : String) : List String := (h key).getD []

/-- The first value. -/
def get (h : Header) (key : String) : String := (h.values key).headD ""

def set (h : Header) (key value : String) : Header := Function.update h key (some [value])

def add (h : Header) (key value : String) : Header := Function.update h key (some (h.values key ++ [value]))

variable {h : Header} {key key' value : String}

@[simp] theorem get_set_self : (h.set key value).get key = value := by simp [get, values, set]

theorem get_set_ne (hne : key' ≠ key) : (h.set key value).get key' = h.get key' := by simp [get, values, set, Function.update_of_ne hne]

theorem get_add_ne (hne : key' ≠ key) : (h.add key value).get key' = h.get key' := by simp [get, values, add, Function.update_of_ne hne]

end Header

structure Request where
  method : String
  path : GoString
  header : Header

/-- A status that `WriteHeader` takes. It panics at any other number. -/
structure Status where
  code : Nat
  digits : 100 ≤ code ∧ code ≤ 999
  deriving DecidableEq

namespace Status

def ok : Status := ⟨200, by decide⟩
def notModified : Status := ⟨304, by decide⟩
def gatewayTimeout : Status := ⟨504, by decide⟩

/-- Sent at once, before the status of the answer. -/
def informational (s : Status) : Bool := s.code ≤ 199 && s.code ≠ 101

def success (s : Status) : Bool := 200 ≤ s.code && s.code < 300

def bodyAllowed (s : Status) : Bool := 200 ≤ s.code && s.code ≠ 204 && s.code ≠ 304

end Status

/-- A status line with the headers that went out below it. -/
structure Answer where
  status : Status
  header : Header

/-- What a handler writes to, and what was sent of it. -/
structure Response where
  header : Header
  early : List Answer := []
  sent : Option Answer := none
  body : GoString := []

inductive Act where
  | header (f : Header → Header)
  | writeHeader (code : Status)
  | write (b : GoString)
  | flush

namespace Response

variable (w : Response)

def writeHeader (code : Status) : Response :=
  if w.sent.isSome then w
  else if code.informational then { w with early := w.early ++ [⟨code, w.header⟩] }
  else { w with sent := some ⟨code, w.header⟩ }

/-- The answer, 200 where the handler never gave a status. -/
def answer : Answer := w.sent.getD ⟨.ok, w.header⟩

def write (b : GoString) : Response :=
  if w.answer.status.bodyAllowed then { w.writeHeader .ok with body := w.body ++ b } else w.writeHeader .ok

def act : Act → Response
  | .header f => { w with header := f w.header }
  | .writeHeader code => w.writeHeader code
  | .write b => w.write b
  | .flush => w.writeHeader .ok

variable {w} {a : Answer}

theorem writeHeader_sent (h : w.sent = some a) (code : Status) : w.writeHeader code = w := if_pos (by rw [h]; rfl)

theorem writeHeader_unsent (h : w.sent = none) {code : Status} (hfinal : code.informational = false) :
    w.writeHeader code = { w with sent := some ⟨code, w.header⟩ } := by
  rw [writeHeader, h, hfinal]
  rfl

theorem write_sent (b : GoString) : (w.write b).sent = (w.writeHeader .ok).sent := by
  unfold write
  split <;> rfl

theorem answer_of_sent (h : w.sent = some a) : w.answer = a := by rw [answer, h]; rfl

/-- The status line is written once. -/
theorem act_sent (h : w.sent = some a) (x : Act) : (w.act x).sent = some a := by
  cases x with
  | header f => exact h
  | writeHeader code => exact (congrArg sent (writeHeader_sent h code)).trans h
  | write b => exact (write_sent b).trans ((congrArg sent (writeHeader_sent h .ok)).trans h)
  | flush => exact (congrArg sent (writeHeader_sent h .ok)).trans h

end Response

/-! ## Handlers -/

inductive Handler where
  | done
  | act (x : Act) (next : Header → Handler)

namespace Handler

section run

variable {S : Type} (step : S → Act → S) (header : S → Header)

/-- The calls of a handler on any writer. -/
def run : Handler → S → S
  | done, s => s
  | act x next, s => run (next (header (step s x))) (step s x)

@[simp] theorem run_act (x : Act) (next : Header → Handler) (s : S) :
    (act x next).run step header s = (next (header (step s x))).run step header (step s x) := rfl

/-- What every call preserves holds at the end. -/
theorem run_preserves {P : S → Prop} (hstep : ∀ s x, P s → P (step s x)) (k : Handler) {s : S} (h : P s) : P (k.run step header s) := by
  induction k generalizing s with
  | done => exact h
  | act x next ih => exact ih _ (hstep s x h)

end run

/-- The handler on the writer of net/http itself. -/
def serve (k : Handler) (w : Response) : Response := k.run Response.act Response.header w

theorem serve_act (x : Act) (next : Header → Handler) (w : Response) :
    (act x next).serve w = (next (w.act x).header).serve (w.act x) := rfl

theorem serve_sent (k : Handler) {w : Response} {a : Answer} (h : w.sent = some a) : (k.serve w).sent = some a :=
  run_preserves Response.act Response.header (P := fun w => w.sent = some a) (fun _ x hs => Response.act_sent hs x) k h

theorem serve_answer (k : Handler) {w : Response} {a : Answer} (h : w.sent = some a) : (k.serve w).answer = a :=
  Response.answer_of_sent (serve_sent k h)

end Handler

end Ploykit.Http

import Ploykit.Lib.Labelled
import Ploykit.Platform.Http

/-!
# Requests with a deadline

`serveWithTimeout` and `timeoutWriter` of `platform/webx/timeout.go`. The handler runs on its own
goroutine; the lock of the writer makes its calls and the mark of the deadline atomic. The header
map is the one of the wrapped writer, and a flush through a response controller goes past the guard.
-/

namespace Ploykit.Webx.Timeout

open Lib Http

inductive Ending where
  | returned
  | panicked
  deriving DecidableEq

/-- Where the goroutine that waits for the handler is. -/
inductive Stage where
  | waiting
  /-- `ctx.Done` was taken. -/
  | late
  /-- Neither channel was ready. -/
  | marking
  /-- `WriteError` has these calls to make. -/
  | answering (rest : List Act)
  | over
  | panics

structure Serving where
  resp : Response
  wrote : Bool := false
  timedOut : Bool := false
  expired : Bool := false
  handler : Option Ending := none
  stage : Stage := .waiting

inductive Event where
  /-- A call of the handler. -/
  | call (x : Act)
  | ends (e : Ending)
  | expire
  /-- The outer select takes what the handler has left. -/
  | finish
  | timeout
  /-- The inner select. -/
  | look
  | mark
  | answer

def envelope : GoString := GoString.lit "\x7b\"error\":\"E_TIMEOUT\",\"message\":\"request timeout\"\x7d\n"

def jsonType (h : Header) : Header := h.set "Content-Type" "application/json; charset=utf-8"

/-- `WriteError` with the timeout error. -/
def writeError : List Act := [.header jsonType, .writeHeader .gatewayTimeout, .write envelope]

namespace Serving

/-- The methods of `timeoutWriter`. -/
def call (s : Serving) : Act → Serving
  | .header f => { s with resp := s.resp.act (.header f) }
  | .writeHeader code => if s.timedOut then s else { s with wrote := true, resp := s.resp.act (.writeHeader code) }
  | .write b => if s.timedOut then s else { s with wrote := true, resp := s.resp.act (.write b) }
  | .flush => { s with resp := s.resp.act .flush }

/-- The request ends as the handler did. -/
def settle (s : Serving) : Ending → Serving
  | .returned => { s with stage := .over }
  | .panicked => { s with stage := .panics }

/-- The waiting goroutine goes on. -/
def wait (s : Serving) : Stage → Event → Option Serving
  | .waiting, .finish => s.handler.map s.settle
  | .waiting, .timeout => if s.expired then some { s with stage := .late } else none
  | .late, .look => some (s.handler.elim { s with stage := .marking } s.settle)
  | .marking, .mark => some { s with timedOut := true, stage := if s.wrote then .over else .answering writeError }
  | .answering [x], .answer => some { s with resp := s.resp.act x, stage := .over }
  | .answering (x :: rest), .answer => some { s with resp := s.resp.act x, stage := .answering rest }
  | _, _ => none

def step (s : Serving) : Event → Option Serving
  | .call x => if s.handler = none then some (s.call x) else none
  | .ends e => if s.handler = none then some { s with handler := some e } else none
  | .expire => some { s with expired := true }
  | e => s.wait s.stage e

end Serving

def start (base : Header) : Serving := { resp := { header := base } }

/-! ## What the client should receive -/

def Event.act? : Event → Option Act
  | .call x => some x
  | _ => none

def Event.isMark : Event → Bool
  | .mark => true
  | _ => false

/-- What the handler's calls up to the deadline make of a response. -/
def own (base : Header) (es : List Event) : Response :=
  ((es.takeWhile fun e => !e.isMark).filterMap Event.act?).foldl Response.act { header := base }

/-- What went to the client. -/
def received (w : Response) : List Answer × Option Answer × GoString := (w.early, w.sent, w.body)

def errorLine (base : Header) : Answer := ⟨.gatewayTimeout, jsonType base⟩

/-- The client has what the handler wrote up to the deadline, or what has been written of the error. -/
inductive Clean (base : Header) (w : Response) (s : Serving) : Prop
  | handler (hsame : received s.resp = received w) (hover : s.stage = .over → w.sent ≠ none ∨ s.handler = some .returned)
  | error (hnone : received w = ([], none, [])) (hmarked : s.timedOut = true)
      (hpart : received s.resp = ([], none, []) ∧ s.stage ≠ .over ∨ received s.resp = ([], some (errorLine base), []) ∧ s.stage ≠ .over ∨
        received s.resp = ([], some (errorLine base), envelope))

/-- The deadline takes effect after the final status of the handler, or before any of its changes; and the header map stays until
the status line of the error. -/
def Calm (base : Header) (s : Serving) : Event → Prop
  | .mark => if s.wrote then s.resp.sent ≠ none else s.resp.sent = none ∧ s.resp.header = base
  | .call (.header f) => s.timedOut = true → s.resp.sent = none → f s.resp.header = s.resp.header
  | .call .flush => s.timedOut = true → s.resp.sent ≠ none
  | _ => True

/-! ## Histories -/

section own

variable {base : Header} {es : List Event} {e : Event}

theorem own_marked (h : es.any Event.isMark = true) : own base (es ++ [e]) = own base es := by
  have hshort : (es.takeWhile fun e => !e.isMark).length ≠ es.length := by
    intro hlength
    obtain ⟨m, hm, hmark⟩ := List.any_eq_true.1 h
    rw [← (List.takeWhile_prefix _).eq_of_length hlength] at hm
    have hfree := List.mem_takeWhile_imp hm
    rw [hmark] at hfree
    exact Bool.false_ne_true hfree
  unfold own
  rw [List.takeWhile_append, if_neg hshort]

theorem own_unmarked (h : es.any Event.isMark = false) :
    own base (es ++ [e]) = e.act?.elim (own base es) (own base es).act := by
  have hall : (es.takeWhile fun e => !e.isMark) = es := by
    refine List.takeWhile_eq_self_iff.2 fun m hm => ?_
    rw [Bool.not_eq_true']
    exact Bool.eq_false_iff.2 (List.any_eq_false.1 h m hm)
  unfold own
  rw [List.takeWhile_append, hall, if_pos rfl, List.filterMap_append, List.foldl_append]
  cases e <;> rfl

theorem any_concat : (es ++ [e]).any Event.isMark = (es.any Event.isMark || e.isMark) := by
  rw [List.any_append, List.any_cons, List.any_nil, Bool.or_false]

end own

/-! ## One step -/

section step

variable {base : Header} {w : Response} {s s' : Serving}

/-- How far the error has been written. -/
inductive Part (base : Header) (s : Serving) : Prop
  | first (hstage : s.stage = .answering writeError) (hheader : s.resp.header = base) (h : received s.resp = ([], none, []))
  | second (hstage : s.stage = .answering [.writeHeader .gatewayTimeout, .write envelope]) (hheader : s.resp.header = jsonType base)
      (h : received s.resp = ([], none, []))
  | third (hstage : s.stage = .answering [.write envelope]) (h : received s.resp = ([], some (errorLine base), []))
  | last (hstage : s.stage = .over) (h : received s.resp = ([], some (errorLine base), envelope))

/-- The states of a calm run, with what the handler wrote up to the deadline. -/
inductive Phase (base : Header) (w : Response) (s : Serving) : Prop
  | before (htimed : s.timedOut = false) (hresp : s.resp = w) (hblank : s.wrote = false → w.early = [] ∧ (w.sent = none → w.body = []))
      (hanswering : ∀ rest, s.stage ≠ .answering rest) (hover : s.stage = .over → s.handler = some .returned)
  | written (htimed : s.timedOut = true) (hsame : received s.resp = received w) (hsent : w.sent ≠ none) (hstage : s.stage = .over)
  | error (htimed : s.timedOut = true) (hnone : received w = ([], none, [])) (hpart : Part base s)

theorem Phase.clean (h : Phase base w s) : Clean base w s := by
  cases h with
  | before htimed hresp hblank hanswering hover => exact .handler (congrArg received hresp) fun hstage => .inr (hover hstage)
  | written htimed hsame hsent hstage => exact .handler hsame fun _ => .inl hsent
  | error htimed hnone hpart =>
    refine .error hnone htimed ?_
    cases hpart with
    | first hstage hheader h => exact .inl ⟨h, by rw [hstage]; exact Stage.noConfusion⟩
    | second hstage hheader h => exact .inl ⟨h, by rw [hstage]; exact Stage.noConfusion⟩
    | third hstage h => exact .inr (.inl ⟨h, by rw [hstage]; exact Stage.noConfusion⟩)
    | last hstage h => exact .inr (.inr h)

theorem unsent (h : received s.resp = ([], none, [])) : s.resp.sent = none := congrArg (·.2.1) h

/-- A call of the handler after the deadline reaches nobody. -/
theorem Phase.call_late (h : Phase base w s) (htimed : s.timedOut = true) {x : Act} (hcalm : Calm base s (.call x)) :
    Phase base w (s.call x) := by
  cases x with
  | header f =>
    cases h with
    | before hopen => exact absurd htimed (by rw [hopen]; exact Bool.false_ne_true)
    | written _ hsame hsent hstage => exact .written htimed hsame hsent hstage
    | error _ hnone hpart =>
      refine .error htimed hnone ?_
      cases hpart with
      | first hstage hheader h => exact .first hstage ((hcalm htimed (unsent h)).trans hheader) h
      | second hstage hheader h => exact .second hstage ((hcalm htimed (unsent h)).trans hheader) h
      | third hstage h => exact .third hstage h
      | last hstage h => exact .last hstage h
  | writeHeader code =>
    rw [Serving.call, if_pos htimed]
    exact h
  | write b =>
    rw [Serving.call, if_pos htimed]
    exact h
  | flush =>
    obtain ⟨a, ha⟩ := Option.ne_none_iff_exists'.1 (hcalm htimed)
    have hsame : s.resp.act .flush = s.resp := Response.writeHeader_sent ha .ok
    rw [Serving.call, hsame]
    exact h

/-- Before the deadline every call is one on the wrapped writer. -/
theorem Phase.call_before (h : Phase base w s) (htimed : s.timedOut = false) (x : Act) : Phase base (w.act x) (s.call x) := by
  cases h with
  | before _ hresp hblank hanswering hover =>
    subst hresp
    cases x with
    | header f => exact .before htimed rfl hblank hanswering hover
    | writeHeader code =>
      rw [Serving.call, if_neg (by rw [htimed]; exact Bool.false_ne_true)]
      exact .before htimed rfl (fun hwrote => absurd hwrote.symm Bool.false_ne_true) hanswering hover
    | write b =>
      rw [Serving.call, if_neg (by rw [htimed]; exact Bool.false_ne_true)]
      exact .before htimed rfl (fun hwrote => absurd hwrote.symm Bool.false_ne_true) hanswering hover
    | flush =>
      refine .before htimed rfl (fun hwrote => ?_) hanswering hover
      obtain ⟨hearly, hbody⟩ := hblank hwrote
      cases hsent : s.resp.sent with
      | none =>
        rw [Response.act, Response.writeHeader_unsent hsent rfl]
        exact ⟨hearly, fun h => absurd h (Option.some_ne_none _)⟩
      | some a =>
        rw [Response.act, Response.writeHeader_sent hsent]
        exact ⟨hearly, hbody⟩
  | written hlate => exact absurd hlate (by rw [htimed]; exact Bool.false_ne_true)
  | error hlate => exact absurd hlate (by rw [htimed]; exact Bool.false_ne_true)

theorem Phase.update (h : Phase base w s) {handler : Option Ending} (expired : Bool)
    (hhandler : s.handler = some .returned → handler = some .returned) : Phase base w { s with handler := handler, expired := expired } := by
  cases h with
  | before htimed hresp hblank hanswering hover => exact .before htimed hresp hblank hanswering fun hstage => hhandler (hover hstage)
  | written htimed hsame hsent hstage => exact .written htimed hsame hsent hstage
  | error htimed hnone hpart =>
    refine .error htimed hnone ?_
    cases hpart with
    | first hstage hheader h => exact .first hstage hheader h
    | second hstage hheader h => exact .second hstage hheader h
    | third hstage h => exact .third hstage h
    | last hstage h => exact .last hstage h

theorem Phase.settle (h : Phase base w s) (htimed : s.timedOut = false) {e : Ending} (he : s.handler = some e) :
    Phase base w (s.settle e) := by
  cases h with
  | before _ hresp hblank hanswering hover =>
    cases e with
    | returned => exact .before htimed hresp hblank (fun _ => Stage.noConfusion) fun _ => he
    | panicked => exact .before htimed hresp hblank (fun _ => Stage.noConfusion) Stage.noConfusion
  | written hlate => exact absurd hlate (by rw [htimed]; exact Bool.false_ne_true)
  | error hlate => exact absurd hlate (by rw [htimed]; exact Bool.false_ne_true)

/-- The goroutine that waits, in each of its stages. -/
theorem Phase.wait (h : Phase base w s) {e : Event} (hcalm : Calm base s e) (hs : s.wait s.stage e = some s') : Phase base w s' := by
  cases h with
  | before htimed hresp hblank hanswering hover =>
    have hphase : Phase base w s := .before htimed hresp hblank hanswering hover
    unfold Serving.wait at hs
    split at hs
    · obtain ⟨e, he, rfl⟩ := Option.map_eq_some_iff.1 hs
      exact hphase.settle htimed he
    · split at hs
      · cases hs
        exact .before htimed hresp hblank (fun _ => Stage.noConfusion) Stage.noConfusion
      · cases hs
    · cases hs
      cases he : s.handler with
      | none => exact .before htimed hresp hblank (fun _ => Stage.noConfusion) Stage.noConfusion
      | some e => exact hphase.settle htimed he
    · cases hs
      rw [Calm] at hcalm
      cases hwrote : s.wrote with
      | true =>
        rw [hwrote, if_pos rfl, hresp] at hcalm
        exact .written rfl (congrArg received hresp) hcalm rfl
      | false =>
        rw [hwrote, if_neg Bool.false_ne_true] at hcalm
        obtain ⟨hsent, hheader⟩ := hcalm
        have hnone : received w = ([], none, []) := by
          rw [hresp] at hsent
          rw [received, (hblank hwrote).1, hsent, (hblank hwrote).2 hsent]
        exact .error rfl hnone (.first rfl hheader ((congrArg received hresp).trans hnone))
    · rename_i hstage
      exact absurd hstage (hanswering _)
    · rename_i hstage
      exact absurd hstage (hanswering _)
    · cases hs
  | written htimed hsame hsent hstage =>
    rw [hstage] at hs
    cases e <;> cases hs
  | error htimed hnone hpart =>
    cases hpart with
    | first hstage hheader hpart =>
      rw [hstage] at hs
      cases e <;> cases hs
      exact .error htimed hnone (.second rfl (congrArg jsonType hheader) hpart)
    | second hstage hheader hpart =>
      rw [hstage] at hs
      cases e <;> cases hs
      refine .error htimed hnone (.third rfl ?_)
      show received (s.resp.writeHeader .gatewayTimeout) = _
      rw [Response.writeHeader_unsent (unsent hpart) rfl, hheader]
      exact congrArg (fun r : List Answer × Option Answer × GoString => (r.1, some (errorLine base), r.2.2)) hpart
    | third hstage hpart =>
      rw [hstage] at hs
      cases e <;> cases hs
      refine .error htimed hnone (.last rfl ?_)
      have hsent : s.resp.sent = some (errorLine base) := congrArg (·.2.1) hpart
      show received (s.resp.write envelope) = _
      rw [Response.write, Response.answer_of_sent hsent, if_pos (show (errorLine base).status.bodyAllowed = true from rfl), Response.writeHeader_sent hsent]
      exact congrArg (fun r : List Answer × Option Answer × GoString => (r.1, r.2.1, r.2.2 ++ envelope)) hpart
    | last hstage hpart =>
      rw [hstage] at hs
      cases e <;> cases hs

theorem marked_of_wait {e : Event} (hs : s.wait s.stage e = some s') : s'.timedOut = (s.timedOut || e.isMark) := by
  unfold Serving.wait at hs
  split at hs
  · obtain ⟨e, he, rfl⟩ := Option.map_eq_some_iff.1 hs
    cases e <;> exact (Bool.or_false _).symm
  · split at hs
    · cases hs
      exact (Bool.or_false _).symm
    · cases hs
  · cases hs
    cases s.handler with
    | none => exact (Bool.or_false _).symm
    | some e => cases e <;> exact (Bool.or_false _).symm
  · cases hs
    exact (Bool.or_true _).symm
  · cases hs
    exact (Bool.or_false _).symm
  · cases hs
    exact (Bool.or_false _).symm
  · cases hs

theorem call_timedOut (s : Serving) (x : Act) : (s.call x).timedOut = s.timedOut := by
  cases x with
  | header f => rfl
  | writeHeader code =>
    rw [Serving.call]
    split <;> rfl
  | write b =>
    rw [Serving.call]
    split <;> rfl
  | flush => rfl

theorem call_sent {a : Answer} (h : s.resp.sent = some a) (x : Act) : (s.call x).resp.sent = some a := by
  cases x with
  | header f => exact h
  | writeHeader code =>
    rw [Serving.call]
    split
    · exact h
    · exact Response.act_sent h (.writeHeader code)
  | write b =>
    rw [Serving.call]
    split
    · exact h
    · exact Response.act_sent h (.write b)
  | flush => exact Response.act_sent h .flush

theorem wait_sent {a : Answer} (h : s.resp.sent = some a) {e : Event} (hs : s.wait s.stage e = some s') : s'.resp.sent = some a := by
  unfold Serving.wait at hs
  split at hs
  · obtain ⟨e, he, rfl⟩ := Option.map_eq_some_iff.1 hs
    cases e <;> exact h
  · split at hs
    · cases hs
      exact h
    · cases hs
  · cases hs
    cases s.handler with
    | none => exact h
    | some e => cases e <;> exact h
  · cases hs
    exact h
  · cases hs
    exact Response.act_sent h _
  · cases hs
    exact Response.act_sent h _
  · cases hs

/-- The status line of the client is written once. -/
theorem step_sent {a : Answer} (h : s.resp.sent = some a) {e : Event} (hs : s.step e = some s') : s'.resp.sent = some a := by
  cases e with
  | call x =>
    rw [Serving.step] at hs
    split at hs
    · cases hs
      exact call_sent h x
    · cases hs
  | ends ending =>
    rw [Serving.step] at hs
    split at hs
    · cases hs
      exact h
    · cases hs
  | expire =>
    cases hs
    exact h
  | _ => exact wait_sent h hs

end step

/-! ## Runs -/

section runs

variable {base : Header} {es : List Event} {s : Serving}

/-- The state of a calm run, and whether the deadline has taken effect. -/
theorem phase_of_trace (h : Trace Serving.step (Calm base) (start base) es s) :
    Phase base (own base es) s ∧ es.any Event.isMark = s.timedOut := by
  refine h.invariant (P := fun es s => Phase base (own base es) s ∧ es.any Event.isMark = s.timedOut)
    ⟨.before rfl rfl (fun _ => ⟨rfl, fun _ => rfl⟩) (fun _ => Stage.noConfusion) Stage.noConfusion, rfl⟩ ?_
  rintro es e s s' - ⟨hphase, hmarked⟩ hcalm hs
  rw [any_concat, hmarked]
  have hkept : e.act? = none → own base (es ++ [e]) = own base es := by
    intro hact
    cases hmark : es.any Event.isMark with
    | true => exact own_marked hmark
    | false => rw [own_unmarked hmark, hact]; rfl
  have hwait : s.wait s.stage e = some s' → e.act? = none → Phase base (own base (es ++ [e])) s' ∧ (s.timedOut || e.isMark) = s'.timedOut := by
    intro hs hact
    rw [hkept hact]
    exact ⟨hphase.wait hcalm hs, (marked_of_wait hs).symm⟩
  cases e with
  | call x =>
    rw [Serving.step] at hs
    split at hs
    · cases hs
      rw [call_timedOut]
      refine ⟨?_, Bool.or_false _⟩
      cases htimed : s.timedOut with
      | true =>
        rw [own_marked (hmarked.trans htimed)]
        exact hphase.call_late htimed hcalm
      | false =>
        rw [own_unmarked (hmarked.trans htimed)]
        exact hphase.call_before htimed x
    · cases hs
  | ends ending =>
    rw [Serving.step] at hs
    split at hs
    · rename_i hrunning
      cases hs
      rw [hkept rfl]
      refine ⟨?_, Bool.or_false _⟩
      exact hphase.update s.expired fun hover => absurd (hrunning.symm.trans hover) (Option.some_ne_none _).symm
    · cases hs
  | expire =>
    cases hs
    rw [hkept rfl]
    refine ⟨?_, Bool.or_false _⟩
    exact hphase.update true id
  | _ => exact hwait hs rfl

/-- In a run in which the deadline takes effect after the handler's final status, or before it has changed anything, the client has
one answer. -/
theorem one_answer (h : Trace Serving.step (Calm base) (start base) es s) :
    Clean base (own base es) s ∧ ∀ e s' a, s.step e = some s' → s.resp.sent = some a → s'.resp.sent = some a :=
  ⟨(phase_of_trace h).1.clean, fun _ _ _ hs hsent => step_sent hsent hs⟩

/-- A handler that does nothing. -/
theorem silent_answer : ∃ s, Clean .empty (own .empty [.expire, .timeout, .look, .mark, .answer, .answer, .answer]) s ∧
    received s.resp = ([], some (errorLine .empty), envelope) := by
  have h₁ : Trace Serving.step (Calm .empty) (start .empty) ([] ++ [.expire]) _ := Trace.start.next trivial rfl
  have h₂ := h₁.next (e := Event.timeout) trivial rfl
  have h₃ := h₂.next (e := Event.look) trivial rfl
  have h₄ := h₃.next (e := Event.mark) ⟨rfl, rfl⟩ rfl
  have h₅ := ((h₄.next (e := Event.answer) trivial rfl).next (e := Event.answer) trivial rfl).next (e := Event.answer) trivial rfl
  exact ⟨_, (one_answer h₅).1, rfl⟩

/-- The header that a handler has set goes out with the error. -/
theorem cookie_leaked : ¬ ∀ base es s, Trace Serving.step (fun _ _ => True) (start base) es s → Clean base (own base es) s := by
  intro h
  have hrun : Trace Serving.step (fun _ _ => True) (start .empty)
      [.call (.header (·.set "Set-Cookie" "id=1")), .expire, .timeout, .look, .mark, .answer, .answer, .answer] _ :=
    Trace.play (fun _ _ => trivial) rfl
  cases h _ _ _ hrun with
  | handler hsame hover => exact absurd (congrArg (·.2.1.isSome) hsame) (by decide)
  | error hnone hmarked hpart =>
    rcases hpart with ⟨-, hstage⟩ | ⟨-, hstage⟩ | hpart
    · exact hstage rfl
    · exact hstage rfl
    · have hcookie := congrArg (fun r : List Answer × Option Answer × GoString => r.2.1.map (·.header.get "Set-Cookie")) hpart
      exact absurd hcookie (by decide)

end runs

end Ploykit.Webx.Timeout


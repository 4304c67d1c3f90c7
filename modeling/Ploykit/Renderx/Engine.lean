import Mathlib.Data.List.Infix
import Ploykit.Lib.Procedure
import Ploykit.Lib.Schedule

/-!
# The engine pool

`EnginePool` of `platform/renderx` while it is open. Sending and receiving on a channel, a
`select`, loading and storing a flag are single calls of a goroutine. A run loop is one
goroutine for each request that it takes. What an engine answers is arbitrary, and so is
when a timer fires and when the context of a caller is cancelled. Closing an engine's
runtime is left out, and so are the directives that a render collects.

Who has an instance, and how many could not be replaced, is kept beside the world.
Nothing reads it.
-/

namespace Ploykit.Renderx

open Lib
open Lib.Proc renaming ask → call

/-! ## Instances -/

structure InstanceReq where
  code : String
  label : String
  deriving DecidableEq, Repr

inductive Err where
  | ctxDone
  | renderTimeout (label : String)
  | text (s : String)
  deriving DecidableEq, Repr

structure AskResult where
  val : String
  err : Option Err
  deriving DecidableEq, Repr

/-- Where the run loop of an instance is. -/
inductive Phase where
  | created
  /-- At its `select`. -/
  | ready
  /-- The request has been handed over. -/
  | received (r : Nat) (req : InstanceReq)
  /-- The goroutine `by_` executes the request. -/
  | executing (by_ r : Nat)
  /-- The result has been sent, and the instance is to be retired, or not. -/
  | replied (by_ : Nat) (retire : Bool)
  | exited
  deriving DecidableEq, Repr

/-- Who has the instance. -/
inductive Place where
  | idle
  /-- A caller, or the goroutine that has created it. -/
  | owned (by_ : Nat) (served : Bool)
  | gone
  deriving DecidableEq, Repr

structure EngineInstance where
  phase : Phase := .created
  dead : Bool := false
  /-- `deadCh` is closed. -/
  deadCh : Bool := false
  place : Place := .gone
  deriving DecidableEq, Repr

/-! ## The world -/

structure World where
  /-- The size that is configured. -/
  size : Nat
  /-- `p.instances`, each of which is there once. -/
  instances : List Nat
  idle : List Nat
  state : Nat → EngineInstance
  /-- The instances that have been created. -/
  created : Nat
  /-- The requests that have been handed over. -/
  requests : Nat
  /-- What is in the channel `done` of the request. -/
  done : Nat → Option AskResult
  /-- The instances whose replacement is started by `go`. -/
  spawned : List Nat
  cancelled : Nat → Bool
  /-- The replacements that have failed. -/
  failed : Nat

namespace World

variable (w : World)

def set (x : Nat) (f : EngineInstance → EngineInstance) : World :=
  { w with state := Function.update w.state x (f (w.state x)) }

@[simp] theorem set_self (x : Nat) (f : EngineInstance → EngineInstance) : (w.set x f).state x = f (w.state x) :=
  Function.update_self ..

def setPhase (x : Nat) (phase : Phase) : World := w.set x fun st => { st with phase }

def setPlace (x : Nat) (place : Place) : World := w.set x fun st => { st with place }

end World

/-! ## Calls -/

/-- What ends the wait for a result. -/
inductive Reply where
  | done (r : AskResult)
  | timeout
  | ctxDone
  deriving DecidableEq, Repr

/-- What `EvalToString` ends with. -/
inductive Evaluated where
  | ok (val : String)
  | error (text : String)
  | panicked (text : String)
  deriving DecidableEq, Repr

inductive Op : Type → Type
  /-- `inst := <-p.idle`, unless the context is done. -/
  | selectIdle : Op (Option Nat)
  /-- `inst.reqs <- req`, unless the context is done. -/
  | selectSend (x : Nat) (req : InstanceReq) : Op (Option Nat)
  /-- `<-req.done`, unless the timer fires or the context is done. -/
  | selectReply (x r : Nat) : Op Reply
  /-- `atomic.CompareAndSwapInt32(&inst.dead, 0, 1)` -/
  | casDead (x : Nat) : Op Bool
  | closeDeadCh (x : Nat) : Op Unit
  /-- `go p.replaceInstance(inst)` -/
  | goReplace (x : Nat) : Op Unit
  | loadDead (x : Nat) : Op Bool
  /-- `p.idle <- inst` -/
  | sendIdle (x : Nat) : Op Unit
  /-- `req := <-inst.reqs`, unless `deadCh` is closed. -/
  | selectRun (x : Nat) : Op (Option (Nat × InstanceReq))
  | evalToString (x : Nat) (req : InstanceReq) : Op Evaluated
  /-- `req.done <- res`, after which the instance is retired, or not. -/
  | reply (x r : Nat) (res : AskResult) (retire : Bool) : Op Unit
  /-- `atomic.StoreInt32(&inst.dead, 1)`, with which the run loop leaves. -/
  | storeDead (x : Nat) : Op Unit
  /-- The run loop is at its `select` again. -/
  | listen (x : Nat) : Op Unit
  /-- A goroutine of `go p.replaceInstance(inst)` begins. -/
  | spawned : Op Nat
  | newInstance : Op (Except String Nat)
  /-- Under `p.mu`, the instance is looked for in `p.instances`, and replaced or removed. -/
  | register (dead : Nat) (repl : Option Nat) : Op Bool
  /-- `repl.start(p)` -/
  | start (x : Nat) : Op Unit

/-- One call of goroutine `i`. -/
def Step (i : Nat) : {β : Type} → Op β → World → β → World → Prop
  | _, .selectIdle, w, r, w' => (∃ x rest, w.idle = x :: rest ∧ r = some x ∧ w' = { w with idle := rest }.setPlace x (.owned i true)) ∨
      w.cancelled i ∧ r = none ∧ w' = w
  | _, .selectSend x req, w, r, w' => ((w.state x).phase = .ready ∧ r = some w.requests ∧
      w' = { w with requests := w.requests + 1 }.setPhase x (.received w.requests req)) ∨ w.cancelled i ∧ r = none ∧ w' = w
  | _, .selectReply _ n, w, r, w' => w' = w ∧
      ((∃ res, w.done n = some res ∧ r = .done res) ∨ r = .timeout ∨ w.cancelled i ∧ r = .ctxDone)
  | _, .casDead x, w, r, w' => r = !(w.state x).dead ∧ w' = w.set x fun st => { st with dead := true }
  | _, .closeDeadCh x, w, _, w' => w' = w.set x fun st => { st with deadCh := true }
  | _, .goReplace x, w, _, w' => w' = { w with spawned := x :: w.spawned }
  | _, .loadDead x, w, r, w' => r = (w.state x).dead ∧ w' = if (w.state x).dead then w.setPlace x .gone else w
  | _, .sendIdle x, w, _, w' => w.idle.length < w.size ∧ w' = { w with idle := w.idle ++ [x] }.setPlace x .idle
  | _, .selectRun x, w, r, w' =>
      (∃ n req, (w.state x).phase = .received n req ∧ r = some (n, req) ∧ w' = w.setPhase x (.executing i n)) ∨
      (w.state x).phase = .ready ∧ (w.state x).deadCh ∧ r = none ∧ w' = w.setPhase x .exited
  | _, .evalToString _ _, w, _, w' => w' = w
  | _, .reply x n res retire, w, _, w' =>
      w' = { w with done := Function.update w.done n (some res) }.setPhase x (.replied i retire)
  | _, .storeDead x, w, _, w' => w' = w.set x fun st => { st with dead := true, phase := .exited }
  | _, .listen x, w, _, w' => w' = w.setPhase x .ready
  | _, .spawned, w, r, w' => r ∈ w.spawned ∧ w' = { w with spawned := w.spawned.erase r }
  | _, .newInstance, w, r, w' => ((∃ err, r = .error err) ∧ w' = w) ∨
      r = .ok w.created ∧ w' = { w with created := w.created + 1 }.set w.created fun _ => { place := .owned i false }
  | _, .register dead repl, w, r, w' => r = decide (dead ∈ w.instances) ∧ w' =
      if dead ∉ w.instances then w
      else match repl with
        | some x => { w with instances := w.instances.map fun y => if y = dead then x else y }
        | none => { w with instances := w.instances.erase dead, failed := w.failed + 1 }
  | _, .start x, w, _, w' => w' = w.setPhase x .ready

/-- Contexts are cancelled meanwhile. -/
def machine : Machine Op World where
  step := Step
  abort _ w := w
  env w w' := ∃ cancelled, w' = { w with cancelled }

/-! ## Executing a request -/

def wasmShadowStackSize : Nat := 8 * 1024 * 1024

def maxLogicalStackSize : Nat := wasmShadowStackSize - 1024 * 1024

/-- `strings.Contains` -/
def contains (s sub : String) : Bool := sub.toList <:+: s.toList

/-- What `handle` sends as the result, and whether the instance is to be retired. -/
def outcome (maxStackSize : Nat) : Evaluated → AskResult × Bool
  | .ok val => ({ val, err := none }, false)
  | .panicked text =>
    let err := "renderx: 引擎执行 panic（实例将废弃重建）: " ++ text
    let hint := "（提示：触发了 wasm 物理栈/内存边界——组件树过深是历史成因；逻辑护栏（当前 " ++ toString maxStackSize ++
      " 字节）应先拦截，出现此错即异常情况）"
    ({ val := "", err := some (.text (if contains text "out of bounds memory access" then err ++ hint else err)) }, true)
  | .error text =>
    if contains text "out of bounds memory access" then
      let hint := "（提示：触发了 wasm 物理栈上限（" ++ toString wasmShadowStackSize ++
        " 字节）——默认与上限预算下爆栈应先被逻辑护栏拦截，出现即异常情况；实例将废弃重建）"
      ({ val := "", err := some (.text (text ++ hint)) }, true)
    else if contains text "Maximum call stack size exceeded" || contains text "stack overflow" then
      let hint := "（提示：组件树递归深度超过逻辑栈预算（MaxStackSize=" ++ toString maxStackSize ++
        " 字节）——精简组件树，或上调 PoolOptions.MaxStackSize（上限 " ++ toString maxLogicalStackSize ++ "）；实例未受损）"
      ({ val := "", err := some (.text (text ++ hint)) }, false)
    else ({ val := "", err := some (.text text) }, false)

/-! ## Programs -/

abbrev Proc := Lib.Proc Op Err

/-- What the pool is built with, and what it uses of libraries: `json.Valid`, `json.Marshal` of a
string, and the field `html` of a JSON object. -/
structure Service where
  maxStackSize : Nat := 1024 * 1024
  validJSON : String → Bool
  marshal : String → String
  htmlOf : String → Option String

def maxPropsBytes : Nat := 512 * 1024

def acquire : Proc Nat := do
  match ← call .selectIdle with
  | some inst => return inst
  | none => throw .ctxDone

def release (inst : Nat) : Proc Unit := do
  let dead ← call (.loadDead inst)
  if dead then return () else call (.sendIdle inst)

def replaceInstance (dead : Nat) : Proc Unit := do
  match ← call .newInstance with
  | .error _ =>
    let _ ← call (.register dead none)
    return ()
  | .ok repl =>
    let found ← call (.register dead (some repl))
    if found then
      call (.start repl)
      release repl
    else return ()

def killInstance (inst : Nat) : Proc Unit := do
  let swapped ← call (.casDead inst)
  if swapped then
    call (.closeDeadCh inst)
    call (.goReplace inst)
  else return ()

namespace EnginePool

def ask (inst : Nat) (req : InstanceReq) : Proc String := do
  match ← call (.selectSend inst req) with
  | none => throw .ctxDone
  | some r =>
    match ← call (.selectReply inst r) with
    | .done res =>
      match res.err with
      | some err => throw err
      | none => return res.val
    | .timeout =>
      killInstance inst
      throw (.renderTimeout req.label)
    | .ctxDone => throw .ctxDone

end EnginePool

namespace Service

variable (svc : Service)

def normalizeProps (props : String) : Except Err String :=
  if props = "" then .ok "{}"
  else if props.utf8ByteSize > maxPropsBytes then
    .error (.text ("renderx: props exceed size limit: " ++ toString props.utf8ByteSize ++ " 字节 > 上限 " ++ toString maxPropsBytes))
  else if ¬ svc.validJSON props then .error (.text "renderx: props 不是合法 JSON")
  else .ok props

def renderCallJS (pageID location propsJSON : String) : String :=
  "(function()\x7bvar r=__ploykit_render__(" ++ svc.marshal pageID ++ ", " ++ svc.marshal location ++ ", " ++ svc.marshal propsJSON ++
    ");return typeof r==='string'?r:JSON.stringify(r);\x7d)()"

/-- What a render asks of the instance that it has acquired. -/
def renderOn (inst : Nat) (pageID location propsJSON : String) : Proc String := do
  let val ← EnginePool.ask inst { code := svc.renderCallJS pageID location propsJSON, label := "render:" ++ pageID }
  match svc.htmlOf val with
  | some html => return html
  | none => throw (.text ("renderx: __ploykit_render__(" ++ pageID ++ ", " ++ location ++ ") 返回的 JSON 解析失败"))

def render (pageID location props : String) : Proc String := do
  if pageID = "" ∨ location = "" then throw (.text "renderx: Render 需要 pageID 与 location")
  else
    match svc.normalizeProps props with
    | .error err => throw err
    | .ok propsJSON =>
      let inst ← acquire
      let r ← ExceptT.lift (svc.renderOn inst pageID location propsJSON).run
      -- deferred
      release inst
      match r with
      | .ok html => return html
      | .error err => throw err

/-- The instance stays in use. -/
def handle (inst r : Nat) (req : InstanceReq) : Proc Bool := do
  let ev ← call (.evalToString inst req)
  let (res, retire) := outcome svc.maxStackSize ev
  call (.reply inst r res retire)
  if retire then
    call (.storeDead inst)
    return false
  else return true

/-- The run loop takes one request, or leaves. -/
def run (inst : Nat) : Proc Unit := do
  match ← call (.selectRun inst) with
  | none => return ()
  | some (r, req) =>
    let ok ← svc.handle inst r req
    if ok then call (.listen inst) else replaceInstance inst

end Service

inductive Goroutine where
  | render (pageID location props : String)
  | run (inst : Nat)
  | replaceInstance
  deriving DecidableEq, Repr

namespace Goroutine

def exec (svc : Service) : Goroutine → Proc Unit
  | render pageID location props => do
    let _ ← svc.render pageID location props
    return ()
  | run inst => svc.run inst
  | replaceInstance => do
    let dead ← call .spawned
    Renderx.replaceInstance dead

def program (svc : Service) (g : Goroutine) : Script Op Unit := do
  let _ ← (g.exec svc).run
  return ()

end Goroutine

def Program (svc : Service) (m : Script Op Unit) : Prop := ∃ g : Goroutine, m = g.program svc

/-- What `NewEnginePool` returns, where all instances could be created. -/
def newEnginePool (size : Nat) : World where
  size := size
  instances := List.range size
  idle := List.range size
  state x := if x < size then { phase := .ready, place := .idle } else {}
  created := size
  requests := 0
  done _ := none
  spawned := []
  cancelled _ := false
  failed := 0

/-! ### A small pool -/

def plainService : Service where
  validJSON _ := true
  marshal := id
  htmlOf := some

abbrev Turns := List (Turn Op World Unit)

/-- The goroutine makes so many calls. -/
def calls (i : Nat) (g : Goroutine) (n : Nat) : Turns := [.start i (g.program plainService), .calls i n]

theorem calls_legal {M : Machine Op World} (i : Nat) (g : Goroutine) (n : Nat) :
    (calls i g n).Forall (Turn.Legal M (Program plainService)) := ⟨⟨g, rfl⟩, trivial⟩

/-- An execution where contexts are not cancelled, engines answer, timers fire while nothing is sent, and
no instance can be created any more. -/
def execs (i : Nat) : {β : Type} → Op β → World → Option (β × World)
  | _, .selectIdle, w =>
    match w.idle with
    | [] => none
    | x :: rest => some (some x, { w with idle := rest }.setPlace x (.owned i true))
  | _, .selectSend x req, w =>
    if (w.state x).phase = .ready then
      some (some w.requests, { w with requests := w.requests + 1 }.setPhase x (.received w.requests req))
    else none
  | _, .selectReply _ n, w =>
    match w.done n with
    | some res => some (.done res, w)
    | none => some (.timeout, w)
  | _, .casDead x, w => some (!(w.state x).dead, w.set x fun st => { st with dead := true })
  | _, .closeDeadCh x, w => some ((), w.set x fun st => { st with deadCh := true })
  | _, .goReplace x, w => some ((), { w with spawned := x :: w.spawned })
  | _, .loadDead x, w => some ((w.state x).dead, if (w.state x).dead then w.setPlace x .gone else w)
  | _, .sendIdle x, w =>
    if w.idle.length < w.size then some ((), { w with idle := w.idle ++ [x] }.setPlace x .idle) else none
  | _, .selectRun x, w =>
    match (w.state x).phase with
    | .received n req => some (some (n, req), w.setPhase x (.executing i n))
    | _ => none
  | _, .evalToString _ req, w => some (.ok req.label, w)
  | _, .reply x n res retire, w =>
    some ((), { w with done := Function.update w.done n (some res) }.setPhase x (.replied i retire))
  | _, .storeDead x, w => some ((), w.set x fun st => { st with dead := true, phase := .exited })
  | _, .listen x, w => some ((), w.setPhase x .ready)
  | _, .spawned, w =>
    match w.spawned with
    | [] => none
    | x :: rest => some (x, { w with spawned := rest })
  | _, .newInstance, w => some (.error "", w)
  | _, .register dead none, w =>
    some (decide (dead ∈ w.instances), if dead ∉ w.instances then w else
      { w with instances := w.instances.erase dead, failed := w.failed + 1 })
  | _, _, _ => none

theorem execs_step (i : Nat) {β : Type} (o : Op β) (w : World) (r : β) (w' : World) (h : execs i o w = some (r, w')) :
    machine.step i o w r w' := by
  cases o with
  | selectIdle =>
    simp only [execs] at h
    split at h
    · cases h
    · rename_i x rest hidle
      cases h
      exact .inl ⟨x, rest, hidle, rfl, rfl⟩
  | selectSend x req =>
    simp only [execs] at h
    split at h
    · rename_i hphase
      cases h
      exact .inl ⟨hphase, rfl, rfl⟩
    · cases h
  | selectReply x n =>
    simp only [execs] at h
    split at h
    · rename_i res hdone
      cases h
      exact ⟨rfl, .inl ⟨res, hdone, rfl⟩⟩
    · cases h
      exact ⟨rfl, .inr (.inl rfl)⟩
  | sendIdle x =>
    simp only [execs] at h
    split at h
    · rename_i hroom
      cases h
      exact ⟨hroom, rfl⟩
    · cases h
  | selectRun x =>
    simp only [execs] at h
    split at h
    · rename_i n req hphase
      cases h
      exact .inl ⟨n, req, hphase, rfl, rfl⟩
    · cases h
  | spawned =>
    simp only [execs] at h
    split at h
    · cases h
    · rename_i x rest hspawned
      cases h
      refine ⟨hspawned ▸ List.mem_cons_self, ?_⟩
      rw [hspawned, List.erase_cons_head]
  | newInstance =>
    cases h
    exact .inl ⟨⟨_, rfl⟩, rfl⟩
  | register dead repl =>
    cases repl with
    | none =>
      cases h
      exact ⟨rfl, rfl⟩
    | some x => cases h
  | start x => cases h
  | casDead x =>
    cases h
    exact ⟨rfl, rfl⟩
  | loadDead x =>
    cases h
    exact ⟨rfl, rfl⟩
  | _ =>
    cases h
    rfl

end Ploykit.Renderx

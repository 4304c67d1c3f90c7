import Mathlib.Data.List.Nodup
import Ploykit.Renderx.Engine

/-!
# The capacity of the pool

Every instance is idle, in use or being replaced, and only one of these, where no caller
gives up on a request that is executed and none has its result before the instance that is
to be retired is marked dead. A replacement that fails takes the instance from the pool.
Whatever happens, no instance is idle twice.
-/

namespace Ploykit.Renderx

open Lib Lib.Proc

/-! ## The pool in order -/

/-- The request that the instance has been handed. -/
def Phase.request? : Phase → Option Nat
  | .received r _ => some r
  | .executing _ r => some r
  | _ => none

/-- The run loop takes requests, or is about to. -/
def Phase.free : Phase → Bool
  | .ready => true
  | .replied _ retire => !retire
  | _ => false

namespace EngineInstance

variable (st : EngineInstance)

def isIdle : Bool := !st.dead && st.place = .idle

/-- A caller has it. -/
def isUsed : Bool := !st.dead && match st.place with
  | .owned _ served => served
  | _ => false

/-- It is dead, or takes the place of one and has not been idle yet. -/
def isReplaced : Bool := st.dead || match st.place with
  | .owned _ served => !served
  | _ => false

end EngineInstance

namespace World

variable (w : World)

def inUse : Nat := w.instances.countP fun x => (w.state x).isUsed

def beingReplaced : Nat := w.instances.countP fun x => (w.state x).isReplaced

/-- What is idle is alive and executes nothing, and nothing is lost but what could not be replaced. -/
structure InOrder : Prop where
  alive : ∀ x ∈ w.idle, (w.state x).dead = false ∧ (w.state x).phase ≠ .exited
  rests : ∀ x ∈ w.idle, (w.state x).phase.request? = none
  capacity : w.idle.length + w.inUse + w.beingReplaced + w.failed = w.size

end World

/-- The caller is not cancelled while its request is executed, and does not see the result of a request
after which the instance is retired before that is marked dead. -/
def Undisturbed (i : Nat) : {β : Type} → Op β → World → Prop
  | _, .selectReply x _, w => (w.cancelled i → (w.state x).phase.request? = none) ∧ ∀ j, (w.state x).phase ≠ .replied j true
  | _, _, _ => True

/-! ## The order of calls -/

/-- How far a goroutine is with an instance that it has. -/
inductive Hold where
  | acquired
  | sent (r : Nat)
  | answered
  | expired
  | killed
  | registered
  | started
  | releasing

inductive Stage where
  | rest
  | holds (x : Nat) (k : Hold)
  | loops (x r : Nat)
  | replied (x : Nat) (retire : Bool)
  | replacing (dead : Nat)
  | built (dead x : Nat)

namespace Stage

def Allows : {β : Type} → Stage → Op β → Prop
  | _, s, .selectIdle => s = .rest
  | _, s, .selectSend x _ => s = .holds x .acquired
  | _, s, .selectReply x r => s = .holds x (.sent r)
  | _, s, .casDead x => s = .holds x .expired
  | _, s, .closeDeadCh x => s = .holds x .killed
  | _, s, .goReplace x => s = .holds x .killed
  | _, s, .loadDead x => ∃ k ∈ [Hold.acquired, .answered, .killed, .started], s = .holds x k
  | _, s, .sendIdle x => s = .holds x .releasing
  | _, s, .selectRun _ => s = .rest
  | _, s, .evalToString x _ => ∃ r, s = .loops x r
  | _, s, .reply x r _ _ => s = .loops x r
  | _, s, .storeDead x => s = .replied x true
  | _, s, .listen x => s = .replied x false
  | _, s, .spawned => s = .rest
  | _, s, .newInstance => ∃ dead, s = .replacing dead
  | _, s, .register dead none => s = .replacing dead
  | _, s, .register dead (some x) => s = .built dead x
  | _, s, .start x => s = .holds x .registered

def next : {β : Type} → Stage → Op β → β → Stage
  | _, _, .selectIdle, some x => .holds x .acquired
  | _, _, .selectSend x _, some r => .holds x (.sent r)
  | _, _, .selectReply x _, .timeout => .holds x .expired
  | _, _, .selectReply x _, _ => .holds x .answered
  | _, _, .casDead x, _ => .holds x .killed
  | _, _, .loadDead x, dead => if dead then .rest else .holds x .releasing
  | _, _, .sendIdle _, _ => .rest
  | _, _, .selectRun x, some (r, _) => .loops x r
  | _, _, .reply x _ _ retire, _ => .replied x retire
  | _, _, .storeDead x, _ => .replacing x
  | _, _, .listen _, _ => .rest
  | _, _, .spawned, x => .replacing x
  | _, .replacing dead, .newInstance, .ok x => .built dead x
  | _, _, .register _ (some x), true => .holds x .registered
  | _, _, .register _ _, _ => .rest
  | _, _, .start x, _ => .holds x .started
  | _, s, _, _ => s

end Stage

def monitor : Monitor Op Stage where
  allows s := s.Allows
  next s := s.next
  rests s := s = .rest
  init := .rest
  abort _ := .rest
  init_rests := rfl
  abort_rests _ := rfl

section rules

variable {α β : Type} {s : Stage} {x : Nat} {svc : Service} {Q : Stage → α → Prop}

/-- The procedure calls in order, and fails only where it may be left. -/
abbrev Obeys (F : Stage → Prop) (s : Stage) (m : Proc α) (Q : Stage → α → Prop) : Prop :=
  Proc.Obeys monitor (fun s _ => F s) s m Q

theorem obeys_release {F : Stage → Prop} {k : Hold} (hk : k ∈ [Hold.acquired, .answered, .killed, .started]) :
    Obeys F (.holds x k) (release x) fun s _ => s = .rest := by
  refine obeys_bind (obeys_ask ⟨k, hk, rfl⟩ fun dead => obeys_ite (fun hdead => ?_) fun halive => ?_)
  · exact obeys_pure (if_pos hdead)
  · exact obeys_ask (if_neg halive) fun _ => rfl

theorem obeys_replaceInstance {F : Stage → Prop} {dead : Nat} :
    Obeys F (.replacing dead) (replaceInstance dead) fun s _ => s = .rest := by
  refine obeys_bind (obeys_ask ⟨dead, rfl⟩ fun created => ?_)
  cases created with
  | error _ => exact obeys_bind (obeys_ask rfl fun _ => obeys_pure rfl)
  | ok repl =>
    refine obeys_bind (obeys_ask rfl fun found => ?_)
    cases found with
    | false => exact obeys_pure rfl
    | true => exact obeys_bind (obeys_ask rfl fun _ => obeys_release (by simp))

theorem obeys_killInstance {F : Stage → Prop} :
    Obeys F (.holds x .expired) (killInstance x) fun s _ => s = .holds x .killed := by
  refine obeys_bind (obeys_ask rfl fun swapped => obeys_ite (fun _ => ?_) fun _ => obeys_pure rfl)
  exact obeys_bind (obeys_ask rfl fun _ => obeys_ask rfl fun _ => rfl)

/-- Where the instance may be released. -/
def Releasable (x : Nat) (s : Stage) : Prop := ∃ k ∈ [Hold.acquired, .answered, .killed, .started], s = .holds x k

theorem obeys_ask {req : InstanceReq} :
    Obeys (Releasable x) (.holds x .acquired) (EnginePool.ask x req) fun s _ => Releasable x s := by
  refine obeys_bind (Proc.obeys_ask rfl fun sent => ?_)
  cases sent with
  | none => exact obeys_throw ⟨.acquired, by simp, rfl⟩
  | some r =>
    refine obeys_bind (Proc.obeys_ask rfl fun reply => ?_)
    have hanswered : Releasable x (.holds x .answered) := ⟨.answered, by simp, rfl⟩
    cases reply with
    | done res =>
      obtain ⟨val, err⟩ := res
      cases err with
      | some err => exact obeys_throw hanswered
      | none => exact obeys_pure hanswered
    | timeout =>
      refine obeys_bind (obeys_killInstance.mono fun s _ hs => ?_)
      exact obeys_throw ⟨.killed, by simp, hs⟩
    | ctxDone => exact obeys_throw hanswered

theorem obeys_renderOn {pageID location propsJSON : String} :
    Obeys (Releasable x) (.holds x .acquired) (svc.renderOn x pageID location propsJSON) fun s _ => Releasable x s := by
  refine obeys_bind (obeys_ask.mono fun s val hs => ?_)
  cases svc.htmlOf val with
  | some html => exact obeys_pure hs
  | none => exact obeys_throw hs

theorem obeys_render {pageID location props : String} :
    Obeys (· = .rest) .rest (svc.render pageID location props) fun s _ => s = .rest := by
  refine obeys_ite (fun _ => obeys_throw rfl) fun _ => ?_
  cases svc.normalizeProps props with
  | error err => exact obeys_throw rfl
  | ok propsJSON =>
    refine obeys_bind (obeys_bind (Proc.obeys_ask rfl fun found => ?_))
    cases found with
    | none => exact obeys_throw rfl
    | some x =>
      refine obeys_pure (obeys_bind (Script.follows_bind (Script.Follows.mono obeys_renderOn fun s r hr => ?_)))
      have hheld : Releasable x s := by
        cases r with
        | ok _ => exact hr
        | error _ => exact hr
      obtain ⟨k, hk, rfl⟩ := hheld
      refine obeys_bind ((obeys_release hk).mono fun s _ hs => ?_)
      cases r with
      | ok html => exact obeys_pure hs
      | error err => exact obeys_throw hs

theorem obeys_handle {F : Stage → Prop} {r : Nat} {req : InstanceReq} : Obeys F (.loops x r) (svc.handle x r req) fun s ok =>
    s = if ok then .replied x false else .replacing x := by
  refine obeys_bind (Proc.obeys_ask ⟨r, rfl⟩ fun ev => ?_)
  generalize outcome svc.maxStackSize ev = sent
  obtain ⟨res, retire⟩ := sent
  refine obeys_bind (Proc.obeys_ask rfl fun _ => ?_)
  cases retire with
  | true => exact obeys_bind (Proc.obeys_ask rfl fun _ => obeys_pure rfl)
  | false => exact obeys_pure rfl

theorem obeys_run : Obeys (· = .rest) .rest (svc.run x) fun s _ => s = .rest := by
  refine obeys_bind (Proc.obeys_ask rfl fun taken => ?_)
  cases taken with
  | none => exact obeys_pure rfl
  | some request =>
    obtain ⟨r, req⟩ := request
    refine obeys_bind (obeys_handle.mono fun s ok hs => ?_)
    subst hs
    cases ok with
    | true => exact Proc.obeys_ask rfl fun _ => rfl
    | false => exact obeys_replaceInstance

theorem program_accepts {m : Script Op Unit} (h : Program svc m) : monitor.Accepts m := by
  obtain ⟨g, rfl⟩ := h
  intro s hs
  subst hs
  have hexec : Obeys (· = .rest) .rest (g.exec svc) fun s _ => s = .rest := by
    cases g with
    | render pageID location props => exact obeys_bind (obeys_render.mono fun s _ hs => obeys_pure hs)
    | run inst => exact obeys_run
    | replaceInstance => exact obeys_bind (Proc.obeys_ask rfl fun dead => obeys_replaceInstance)
  refine Script.follows_bind (Script.Follows.mono hexec fun s r hr => ?_)
  cases r with
  | ok _ => exact hr
  | error _ => exact hr

end rules

/-! ## What is kept -/

/-- What a goroutine knows of the instance that it has. In a run that is not disturbed, that is more. -/
def Hold.Knows (strict : Prop) (member : Prop) (st : EngineInstance) : Hold → Prop
  | .acquired => strict → st.dead = false ∧ st.phase.free
  | .sent r => strict → st.phase ≠ .created ∧ ∀ r', st.phase.request? = some r' → r' = r
  | .answered => strict → st.dead = false → st.phase.free
  | .expired => True
  | .killed => st.dead = true
  | .registered => st.dead = false ∧ st.phase = .created ∧ member
  | .started => st.dead = false ∧ st.phase.free ∧ member
  | .releasing => (strict → st.dead = false ∧ st.phase.free) ∧ (st.dead = false → member)

/-- A caller has the instance, or the goroutine that has created it. -/
def Hold.served : Hold → Option Bool
  | .registered => some false
  | .started => some false
  | .releasing => none
  | _ => some true

/-- What is so of the instances of goroutine `i`. -/
def Stage.Agrees (strict : Prop) (w : World) (i : Nat) : Stage → Prop
  | .rest => True
  | .holds x k => (∃ served, (w.state x).place = .owned i served ∧ ∀ b ∈ k.served, served = b) ∧
      k.Knows strict (x ∈ w.instances) (w.state x)
  | .loops x r => (w.state x).phase = .executing i r
  | .replied x retire => (w.state x).phase = .replied i retire
  | .replacing dead => (w.state dead).dead = true
  | .built dead x => (w.state dead).dead = true ∧ (w.state x).place = .owned i false ∧ (w.state x).dead = false ∧
      (w.state x).phase = .created ∧ x ∉ w.instances

structure Kept (strict : Prop) (w : World) (seen : Nat → Stage) : Prop where
  once : w.idle.Nodup
  idle : ∀ x, x ∈ w.idle ↔ (w.state x).place = .idle
  listed : w.instances.Nodup
  size : w.instances.length + w.failed = w.size
  created : ∀ x, w.created ≤ x → w.state x = {} ∧ x ∉ w.instances
  dead : ∀ x, (w.state x).phase = .exited ∨ (w.state x).deadCh = true → (w.state x).dead = true
  spawned : ∀ x ∈ w.spawned, (w.state x).dead = true
  /-- An instance that is alive is in the list once it has been idle, and then somebody has it. -/
  alive : ∀ x, (w.state x).dead = false → (w.state x).place = .idle ∨ (∃ i, (w.state x).place = .owned i true) → x ∈ w.instances
  placed : ∀ x ∈ w.instances, (w.state x).dead = false → (w.state x).place ≠ .gone
  requests : ∀ r, w.requests ≤ r → w.done r = none
  request : ∀ x r, (w.state x).phase.request? = some r → r < w.requests ∧ w.done r = none
  requested : ∀ x y r, (w.state x).phase.request? = some r → (w.state y).phase.request? = some r → x = y
  rests : strict → ∀ x ∈ w.idle, (w.state x).dead = false ∧ (w.state x).phase.free
  agrees : ∀ i, (seen i).Agrees strict w i

section kept

variable {strict : Prop} {w w' : World} {seen : Nat → Stage} {i j x : Nat} {s : Stage} {st : EngineInstance}

theorem newEnginePool_kept (size : Nat) : Kept strict (newEnginePool size) fun _ => .rest := by
  have hstate : ∀ x, (newEnginePool size).state x = if x < size then { phase := .ready, place := .idle } else {} := fun _ => rfl
  have hrequest : ∀ x r, ((newEnginePool size).state x).phase.request? ≠ some r := by
    intro x r
    rw [hstate]
    split
    · exact nofun
    · exact nofun
  refine ⟨List.nodup_range, fun x => ?_, List.nodup_range, List.length_range, fun x hx => ?_, fun x => ?_, nofun, fun x _ hplace => ?_,
    fun x hx _ => ?_, fun _ _ => rfl, fun x r hr => absurd hr (hrequest x r), fun x _ r hr => absurd hr (hrequest x r), fun _ x hx => ?_,
    fun _ => trivial⟩
  · rw [hstate]
    split
    · exact iff_of_true (List.mem_range.2 ‹_›) rfl
    · exact iff_of_false (fun hx => absurd (List.mem_range.1 hx) ‹_›) nofun
  · rw [hstate]
    exact ⟨if_neg (Nat.not_lt.2 hx), fun hmem => absurd (List.mem_range.1 hmem) (Nat.not_lt.2 hx)⟩
  · rw [hstate]
    split
    · exact fun h => h.elim nofun nofun
    · exact fun h => h.elim nofun nofun
  · rw [hstate] at hplace
    split at hplace
    · exact List.mem_range.2 ‹_›
    · exact hplace.elim nofun fun ⟨_, howned⟩ => nomatch howned
  · rw [hstate, if_pos (List.mem_range.1 hx)]
    exact nofun
  · rw [hstate, if_pos (List.mem_range.1 hx)]
    exact ⟨rfl, rfl⟩

/-- The goroutine has the instance, or runs its loop. -/
def Stage.Uses (x : Nat) : Stage → Prop
  | .holds y _ => y = x
  | .loops y _ => y = x
  | .replied y _ => y = x
  | .built _ y => y = x
  | _ => False

/-- A change of one instance concerns who uses it. -/
theorem Stage.Agrees.update (h : s.Agrees strict w j) (hstate : w'.state = Function.update w.state x st)
    (hlist : w'.instances = w.instances) (hdead : (w.state x).dead = true → st.dead = true)
    (huses : s.Uses x → s.Agrees strict w' j) : s.Agrees strict w' j := by
  have hsame : ∀ y, y ≠ x → w'.state y = w.state y := fun y hy => by rw [hstate, Function.update_of_ne hy]
  have hdies : ∀ y, (w.state y).dead = true → (w'.state y).dead = true := by
    intro y hy
    rcases eq_or_ne y x with rfl | hne
    · rw [hstate, Function.update_self]
      exact hdead hy
    · rw [hsame y hne]
      exact hy
  cases s with
  | rest => trivial
  | replacing dead => exact hdies dead h
  | holds y k =>
    rcases eq_or_ne y x with rfl | hne
    · exact huses rfl
    · rw [Stage.Agrees, hsame y hne, hlist]
      exact h
  | loops y r =>
    rcases eq_or_ne y x with rfl | hne
    · exact huses rfl
    · rw [Stage.Agrees, hsame y hne]
      exact h
  | replied y retire =>
    rcases eq_or_ne y x with rfl | hne
    · exact huses rfl
    · rw [Stage.Agrees, hsame y hne]
      exact h
  | built dead y =>
    rcases eq_or_ne y x with rfl | hne
    · exact huses rfl
    · rw [Stage.Agrees, hsame y hne, hlist]
      exact ⟨hdies dead h.1, h.2⟩

theorem Kept.created_of (h : Kept strict w seen) (hx : w.state x ≠ {}) : x < w.created :=
  Nat.lt_of_not_le fun hle => hx (h.created x hle).1

/-- An instance goes on without changing hands. -/
theorem Kept.update (h : Kept strict w seen) {n : Nat} {d : Nat → Option AskResult} (hx : x < w.created)
    (hplace : st.place = (w.state x).place) (hdead : (w.state x).dead = true → st.dead = true)
    (hexit : st.phase = .exited ∨ st.deadCh = true → st.dead = true)
    (hrests : strict → x ∈ w.idle → st.dead = false ∧ st.phase.free) (hnone : ∀ r, n ≤ r → d r = none)
    (hrequest : ∀ r, st.phase.request? = some r → r < n ∧ d r = none ∧ ∀ y, y ≠ x → (w.state y).phase.request? ≠ some r)
    (hother : ∀ y, y ≠ x → ∀ r, (w.state y).phase.request? = some r → r < n ∧ d r = none)
    (huses : ∀ j, j ≠ i → (seen j).Uses x →
      (seen j).Agrees strict { w with state := Function.update w.state x st, requests := n, done := d } j)
    (hself : s.Agrees strict { w with state := Function.update w.state x st, requests := n, done := d } i) :
    Kept strict { w with state := Function.update w.state x st, requests := n, done := d } (Function.update seen i s) := by
  have hsame : ∀ y, y ≠ x → Function.update w.state x st y = w.state y := fun y hy => Function.update_of_ne hy ..
  have hthis : Function.update w.state x st x = st := Function.update_self ..
  have hplaces : ∀ y, (Function.update w.state x st y).place = (w.state y).place := by
    intro y
    rcases eq_or_ne y x with rfl | hne
    · rw [hthis, hplace]
    · rw [hsame y hne]
  have hdies : ∀ y, (w.state y).dead = true → (Function.update w.state x st y).dead = true := by
    intro y hy
    rcases eq_or_ne y x with rfl | hne
    · rw [hthis]
      exact hdead hy
    · rw [hsame y hne]
      exact hy
  have halive : ∀ y, (Function.update w.state x st y).dead = false → (w.state y).dead = false := fun y hy =>
    Bool.eq_false_iff.2 fun hdead => absurd (hdies y hdead) (Bool.eq_false_iff.1 hy)
  refine ⟨h.once, fun y => ?_, h.listed, h.size, fun y hy => ?_, fun y => ?_, fun y hy => hdies y (h.spawned y hy), fun y hy hp => ?_,
    fun y hy hd => ?_, hnone, fun y r hr => ?_, fun y z r hy hz => ?_, fun hstrict y hy => ?_, fun j => ?_⟩
  · rw [hplaces]
    exact h.idle y
  · have hne : y ≠ x := fun heq => absurd hx (heq ▸ Nat.not_lt.2 hy)
    change Function.update w.state x st y = _ ∧ _
    rw [hsame y hne]
    exact h.created y hy
  · change (Function.update w.state x st y).phase = _ ∨ (Function.update w.state x st y).deadCh = _ → (Function.update w.state x st y).dead = _
    rcases eq_or_ne y x with rfl | hne
    · rw [hthis]
      exact hexit
    · rw [hsame y hne]
      exact h.dead y
  · rw [hplaces] at hp
    exact h.alive y (halive y hy) hp
  · rw [hplaces]
    exact h.placed y hy (halive y hd)
  · change (Function.update w.state x st y).phase.request? = _ at hr
    rcases eq_or_ne y x with rfl | hne
    · rw [hthis] at hr
      exact ⟨(hrequest r hr).1, (hrequest r hr).2.1⟩
    · rw [hsame y hne] at hr
      exact hother y hne r hr
  · change (Function.update w.state x st y).phase.request? = _ at hy
    change (Function.update w.state x st z).phase.request? = _ at hz
    rcases eq_or_ne y x with rfl | hyne
    · rw [hthis] at hy
      rcases eq_or_ne z y with rfl | hzne
      · rfl
      · rw [hsame z hzne] at hz
        exact absurd hz ((hrequest r hy).2.2 z hzne)
    · rw [hsame y hyne] at hy
      rcases eq_or_ne z x with rfl | hzne
      · rw [hthis] at hz
        exact absurd hy ((hrequest r hz).2.2 y hyne)
      · rw [hsame z hzne] at hz
        exact h.requested y z r hy hz
  · change (Function.update w.state x st y).dead = _ ∧ (Function.update w.state x st y).phase.free
    rcases eq_or_ne y x with rfl | hne
    · rw [hthis]
      exact hrests hstrict hy
    · rw [hsame y hne]
      exact h.rests hstrict y hy
  · rcases eq_or_ne j i with rfl | hj
    · rw [Function.update_self]
      exact hself
    · rw [Function.update_of_ne hj]
      exact (h.agrees j).update rfl rfl hdead (huses j hj)

/-- A goroutine learns something. -/
theorem Kept.stage (h : Kept strict w seen) (hs : s.Agrees strict w i) : Kept strict w (Function.update seen i s) := by
  refine { h with agrees := fun j => ?_ }
  rcases eq_or_ne j i with rfl | hj
  · rw [Function.update_self]
    exact hs
  · rw [Function.update_of_ne hj]
    exact h.agrees j

theorem Kept.same (h : Kept strict w seen) (i : Nat) : Kept strict w (Function.update seen i (seen i)) := h.stage (h.agrees i)

/-! ### The run loop -/

variable {k : Hold} {member : Prop} {st' : EngineInstance}

/-- The run loop goes on, and who has the instance knows as much as before. -/
theorem Hold.Knows.goes (h : k.Knows strict member st) (hdead : st'.dead = st.dead) (hcreated : st.phase ≠ .created)
    (hcreated' : st'.phase ≠ .created) (hfree : st.phase.free → st'.phase.free)
    (hrequest : ∀ r, st'.phase.request? = some r → st.phase.request? = some r) : k.Knows strict member st' := by
  cases k with
  | acquired => exact fun hs => ⟨hdead.trans (h hs).1, hfree (h hs).2⟩
  | sent r => exact fun hs => ⟨hcreated', fun r' hr => (h hs).2 r' (hrequest r' hr)⟩
  | answered => exact fun hs ha => hfree (h hs (hdead.symm.trans ha))
  | expired => trivial
  | killed => exact hdead.trans h
  | registered => exact absurd h.2.1 hcreated
  | started => exact ⟨hdead.trans h.1, hfree h.2.1, h.2.2⟩
  | releasing => exact ⟨fun hs => ⟨hdead.trans (h.1 hs).1, hfree (h.1 hs).2⟩, fun ha => h.2 (hdead.symm.trans ha)⟩

/-- The run loop leaves, which no goroutine relies on that it does not. -/
theorem Hold.Knows.leaves (h : k.Knows strict member st) (hstuck : st.dead = true ∨ st.phase.free = false)
    (hcreated : st.phase ≠ .created) (hdead : st'.dead = true) (hphase : st'.phase = .exited) : k.Knows strict member st' := by
  have hnot : ¬ (st.dead = false ∧ st.phase.free) := fun ⟨ha, hf⟩ =>
    hstuck.elim (fun hd => Bool.false_ne_true (ha.symm.trans hd)) fun hn => Bool.false_ne_true (hn.symm.trans hf)
  cases k with
  | acquired => exact fun hs => absurd (h hs) hnot
  | sent r => exact fun _ => ⟨hphase ▸ nofun, fun r' hr => by rw [hphase] at hr; cases hr⟩
  | answered => exact fun _ ha => absurd (ha.symm.trans hdead) Bool.false_ne_true
  | expired => trivial
  | killed => exact hdead
  | registered => exact absurd h.2.1 hcreated
  | started => exact absurd ⟨h.1, h.2.1⟩ hnot
  | releasing => exact ⟨fun hs => absurd (h.1 hs) hnot, fun ha => absurd (ha.symm.trans hdead) Bool.false_ne_true⟩

/-- Who uses the instance when its run loop is the goroutine's: nobody but those that have it. -/
theorem Kept.uses (h : Kept strict w seen) (hcreated : (w.state x).phase ≠ .created)
    (hexecuting : ∀ r, (w.state x).phase ≠ .executing j r) (hreplied : ∀ retire, (w.state x).phase ≠ .replied j retire)
    (huses : (seen j).Uses x) : ∃ k, seen j = .holds x k := by
  have hagrees := h.agrees j
  cases hs : seen j with
  | holds y k =>
    rw [hs] at huses
    cases huses
    exact ⟨k, rfl⟩
  | loops y r =>
    rw [hs] at huses hagrees
    cases huses
    exact absurd hagrees (hexecuting r)
  | replied y retire =>
    rw [hs] at huses hagrees
    cases huses
    exact absurd hagrees (hreplied retire)
  | built dead y =>
    rw [hs] at huses hagrees
    cases huses
    exact absurd hagrees.2.2.2.1 hcreated
  | rest => rw [hs] at huses; exact huses.elim
  | replacing dead => rw [hs] at huses; exact huses.elim

/-- The run loop of the instance takes a step. -/
theorem Kept.loop (h : Kept strict w seen) {d : Nat → Option AskResult} (hcreated : (w.state x).phase ≠ .created)
    (hexecuting : ∀ j, j ≠ i → ∀ r, (w.state x).phase ≠ .executing j r)
    (hreplied : ∀ j, j ≠ i → ∀ retire, (w.state x).phase ≠ .replied j retire)
    (hplace : st.place = (w.state x).place) (hdead : (w.state x).dead = true → st.dead = true)
    (hexit : st.phase = .exited ∨ st.deadCh = true → st.dead = true)
    (hrests : strict → x ∈ w.idle → st.dead = false ∧ st.phase.free) (hnone : ∀ r, w.requests ≤ r → d r = none)
    (hrequest : ∀ r, st.phase.request? = some r → (w.state x).phase.request? = some r ∧ d r = none)
    (hother : ∀ y, y ≠ x → ∀ r, (w.state y).phase.request? = some r → d r = none)
    (hknows : ∀ k : Hold, k.Knows strict (x ∈ w.instances) (w.state x) → k.Knows strict (x ∈ w.instances) st)
    (hself : s.Agrees strict { w with state := Function.update w.state x st, done := d } i) :
    Kept strict { w with state := Function.update w.state x st, done := d } (Function.update seen i s) := by
  refine h.update (n := w.requests) (h.created_of fun heq => hcreated (by rw [heq])) hplace hdead hexit hrests hnone
    (fun r hr => ?_) (fun y hy r hr => ⟨(h.request y r hr).1, hother y hy r hr⟩) (fun j hj huses => ?_) hself
  · obtain ⟨hbefore, hempty⟩ := hrequest r hr
    exact ⟨(h.request x r hbefore).1, hempty, fun y hy hy' => hy (h.requested y x r hy' hbefore)⟩
  · obtain ⟨k, hk⟩ := h.uses hcreated (hexecuting j hj) (hreplied j hj) huses
    have hagrees := h.agrees j
    rw [hk] at hagrees ⊢
    obtain ⟨⟨served, hp, hserved⟩, hk⟩ := hagrees
    simp only [Stage.Agrees, Function.update_self]
    exact ⟨⟨served, hplace.trans hp, hserved⟩, hknows k hk⟩

theorem Kept.received (h : Kept strict w seen) {r : Nat} {req : InstanceReq} (hphase : (w.state x).phase = .received r req) :
    Kept strict (w.setPhase x (.executing i r)) (Function.update seen i (.loops x r)) := by
  have hrequest : (w.state x).phase.request? = some r := by rw [hphase]; rfl
  refine h.loop (d := w.done) (by rw [hphase]; exact nofun) (fun j _ r => by rw [hphase]; exact nofun)
    (fun j _ retire => by rw [hphase]; exact nofun) rfl id (fun hexit => ?_) (fun hstrict hidle => ?_) h.requests (fun r' hr' => ?_)
    (fun y _ r hr => (h.request y r hr).2) (fun k hk => ?_) ?_
  · exact hexit.elim nofun fun hclosed => h.dead x (.inr hclosed)
  · have hfree := (h.rests hstrict x hidle).2
    rw [hphase] at hfree
    cases hfree
  · obtain rfl : r = r' := Option.some.inj hr'
    exact ⟨hrequest, (h.request x r hrequest).2⟩
  · refine hk.goes rfl (by rw [hphase]; exact nofun) nofun (fun hfree => ?_) fun r' hr' => ?_
    · rw [hphase] at hfree
      cases hfree
    · rw [hrequest]
      exact hr'
  · simp only [Stage.Agrees, Function.update_self]

theorem Kept.exits (h : Kept strict w seen) (hphase : (w.state x).phase = .ready) (hclosed : (w.state x).deadCh = true) :
    Kept strict (w.setPhase x .exited) (Function.update seen i .rest) := by
  have hdead : (w.state x).dead = true := h.dead x (.inr hclosed)
  refine h.loop (d := w.done) (by rw [hphase]; exact nofun) (fun j _ r => by rw [hphase]; exact nofun)
    (fun j _ retire => by rw [hphase]; exact nofun) rfl id (fun _ => hdead) (fun hstrict hidle => ?_) h.requests nofun
    (fun y _ r hr => (h.request y r hr).2) (fun k hk => ?_) trivial
  · exact absurd ((h.rests hstrict x hidle).1.symm.trans hdead) Bool.false_ne_true
  · exact hk.leaves (.inl hdead) (by rw [hphase]; exact nofun) hdead rfl

theorem Kept.reply (h : Kept strict w seen) {r : Nat} {res : AskResult} {retire : Bool}
    (hphase : (w.state x).phase = .executing i r) :
    Kept strict ({ w with done := Function.update w.done r (some res) }.setPhase x (.replied i retire))
      (Function.update seen i (.replied x retire)) := by
  have hrequest : (w.state x).phase.request? = some r := by rw [hphase]; rfl
  have hdone : ∀ r', r' ≠ r → Function.update w.done r (some res) r' = w.done r' := fun r' hr => Function.update_of_ne hr ..
  refine h.loop (d := Function.update w.done r (some res)) (by rw [hphase]; exact nofun) (fun j hj r => ?_)
    (fun j _ retire => by rw [hphase]; exact nofun) rfl id (fun hexit => ?_) (fun hstrict hidle => ?_) (fun r' hr' => ?_) nofun
    (fun y hy r' hr' => ?_) (fun k hk => ?_) ?_
  · rw [hphase]
    exact fun heq => hj (by cases heq; rfl)
  · exact hexit.elim nofun fun hclosed => h.dead x (.inr hclosed)
  · have hfree := (h.rests hstrict x hidle).2
    rw [hphase] at hfree
    cases hfree
  · have hne : r' ≠ r := fun heq => absurd (h.request x r hrequest).1 (Nat.not_lt.2 (heq ▸ hr'))
    rw [hdone r' hne]
    exact h.requests r' hr'
  · have hne : r' ≠ r := fun heq => hy (h.requested y x r (heq ▸ hr') hrequest)
    rw [hdone r' hne]
    exact (h.request y r' hr').2
  · refine hk.goes rfl (by rw [hphase]; exact nofun) nofun (fun hfree => ?_) nofun
    rw [hphase] at hfree
    cases hfree
  · simp only [Stage.Agrees, Function.update_self]

theorem Kept.storeDead (h : Kept strict w seen) (hphase : (w.state x).phase = .replied i true) :
    Kept strict (w.set x fun st => { st with dead := true, phase := .exited }) (Function.update seen i (.replacing x)) := by
  refine h.loop (d := w.done) (by rw [hphase]; exact nofun) (fun j _ r => by rw [hphase]; exact nofun) (fun j hj retire => ?_) rfl
    (fun _ => rfl) (fun _ => rfl) (fun hstrict hidle => ?_) h.requests nofun (fun y _ r hr => (h.request y r hr).2) (fun k hk => ?_) ?_
  · rw [hphase]
    exact fun heq => hj (by cases heq; rfl)
  · have hfree := (h.rests hstrict x hidle).2
    rw [hphase] at hfree
    cases hfree
  · exact hk.leaves (.inr (by rw [hphase]; rfl)) (by rw [hphase]; exact nofun) rfl rfl
  · simp only [Stage.Agrees, Function.update_self]

theorem Kept.listen (h : Kept strict w seen) (hphase : (w.state x).phase = .replied i false) :
    Kept strict (w.setPhase x .ready) (Function.update seen i .rest) := by
  refine h.loop (d := w.done) (by rw [hphase]; exact nofun) (fun j _ r => by rw [hphase]; exact nofun) (fun j hj retire => ?_) rfl
    id (fun hexit => ?_) (fun hstrict hidle => ⟨(h.rests hstrict x hidle).1, rfl⟩) h.requests nofun (fun y _ r hr => (h.request y r hr).2)
    (fun k hk => ?_) trivial
  · rw [hphase]
    exact fun heq => hj (by cases heq; rfl)
  · exact hexit.elim nofun fun hclosed => h.dead x (.inr hclosed)
  · exact hk.goes rfl (by rw [hphase]; exact nofun) nofun (fun _ => rfl) nofun

/-! ### Who has the instance -/

/-- Nobody but who has the instance uses it, except to run its loop. -/
theorem Kept.others (h : Kept strict w seen) {served : Bool} (hplace : (w.state x).place = .owned i served) (hj : j ≠ i)
    (huses : (seen j).Uses x) : (∃ r, seen j = .loops x r) ∨ ∃ retire, seen j = .replied x retire := by
  have hagrees := h.agrees j
  cases hs : seen j with
  | holds y k =>
    rw [hs] at huses hagrees
    cases huses
    obtain ⟨⟨_, hp, _⟩, _⟩ := hagrees
    exact absurd (Place.owned.inj (hplace.symm.trans hp)).1.symm hj
  | loops y r =>
    rw [hs] at huses
    cases huses
    exact .inl ⟨r, rfl⟩
  | replied y retire =>
    rw [hs] at huses
    cases huses
    exact .inr ⟨retire, rfl⟩
  | built dead y =>
    rw [hs] at huses hagrees
    cases huses
    exact absurd (Place.owned.inj (hplace.symm.trans hagrees.2.1)).1.symm hj
  | rest => rw [hs] at huses; exact huses.elim
  | replacing dead => rw [hs] at huses; exact huses.elim

/-- The goroutine that has the instance changes it. -/
theorem Kept.owner (h : Kept strict w seen) {served : Bool} {n : Nat} (howned : (w.state x).place = .owned i served)
    (hplace : st.place = (w.state x).place) (hdead : (w.state x).dead = true → st.dead = true)
    (hexit : st.phase = .exited ∨ st.deadCh = true → st.dead = true) (hmore : w.requests ≤ n)
    (hrequest : ∀ r, st.phase.request? = some r → r < n ∧ w.done r = none ∧ ∀ y, y ≠ x → (w.state y).phase.request? ≠ some r)
    (hexecuting : ∀ j, j ≠ i → ∀ r, (w.state x).phase = .executing j r → st.phase = .executing j r)
    (hreplied : ∀ j, j ≠ i → ∀ retire, (w.state x).phase = .replied j retire → st.phase = .replied j retire)
    (hself : s.Agrees strict { w with state := Function.update w.state x st, requests := n } i) :
    Kept strict { w with state := Function.update w.state x st, requests := n } (Function.update seen i s) := by
  refine h.update (d := w.done) (h.created_of fun heq => ?_) hplace hdead hexit (fun _ hidle => ?_)
    (fun r hr => h.requests r (hmore.trans hr)) hrequest (fun y _ r hr => ⟨(h.request y r hr).1.trans_le hmore, (h.request y r hr).2⟩)
    (fun j hj huses => ?_) hself
  · rw [heq] at howned
    cases howned
  · exact nomatch howned.symm.trans ((h.idle x).1 hidle)
  · have hagrees := h.agrees j
    rcases h.others howned hj huses with ⟨r, hs⟩ | ⟨retire, hs⟩
    · rw [hs] at hagrees ⊢
      simp only [Stage.Agrees, Function.update_self]
      exact hexecuting j hj r hagrees
    · rw [hs] at hagrees ⊢
      simp only [Stage.Agrees, Function.update_self]
      exact hreplied j hj retire hagrees

theorem Kept.send (h : Kept strict w seen) {req : InstanceReq} (hs : seen i = .holds x .acquired)
    (hphase : (w.state x).phase = .ready) :
    Kept strict ({ w with requests := w.requests + 1 }.setPhase x (.received w.requests req))
      (Function.update seen i (.holds x (.sent w.requests))) := by
  have hagrees := h.agrees i
  rw [hs] at hagrees
  obtain ⟨⟨served, hplace, hserved⟩, -⟩ := hagrees
  refine h.owner hplace rfl id (fun hexit => ?_) (Nat.le_succ _) (fun r hr => ?_) (fun j _ r hr => ?_) (fun j _ retire hr => ?_) ?_
  · exact hexit.elim nofun fun hclosed => h.dead x (.inr hclosed)
  · obtain rfl : w.requests = r := Option.some.inj hr
    refine ⟨Nat.lt_succ_self _, h.requests _ (le_refl _), fun y _ hy => ?_⟩
    exact absurd (h.request y _ hy).1 (Nat.lt_irrefl _)
  · exact nomatch hphase.symm.trans hr
  · exact nomatch hphase.symm.trans hr
  · simp only [Stage.Agrees, Function.update_self]
    exact ⟨⟨served, hplace, hserved⟩, fun _ => ⟨nofun, fun r' hr => (Option.some.inj hr).symm⟩⟩

/-- An instance that is handed nothing stays as its run loop is. -/
theorem Kept.request_same (h : Kept strict w seen) (r : Nat) (hr : (w.state x).phase.request? = some r) :
    r < w.requests ∧ w.done r = none ∧ ∀ y, y ≠ x → (w.state y).phase.request? ≠ some r :=
  ⟨(h.request x r hr).1, (h.request x r hr).2, fun y hy hy' => hy (h.requested y x r hy' hr)⟩

theorem Kept.casDead (h : Kept strict w seen) (hs : seen i = .holds x .expired) :
    Kept strict (w.set x fun st => { st with dead := true }) (Function.update seen i (.holds x .killed)) := by
  have hagrees := h.agrees i
  rw [hs] at hagrees
  obtain ⟨⟨served, hplace, hserved⟩, -⟩ := hagrees
  refine h.owner hplace rfl (fun _ => rfl) (fun _ => rfl) (le_refl _) h.request_same (fun j _ r hr => hr) (fun j _ retire hr => hr) ?_
  simp only [Stage.Agrees, Function.update_self]
  exact ⟨⟨served, hplace, hserved⟩, rfl⟩

theorem Kept.closeDeadCh (h : Kept strict w seen) (hs : seen i = .holds x .killed) :
    Kept strict (w.set x fun st => { st with deadCh := true }) (Function.update seen i (.holds x .killed)) := by
  have hagrees := h.agrees i
  rw [hs] at hagrees
  obtain ⟨⟨served, hplace, hserved⟩, hdead⟩ := hagrees
  refine h.owner hplace rfl id (fun _ => hdead) (le_refl _) h.request_same (fun j _ r hr => hr) (fun j _ retire hr => hr) ?_
  simp only [Stage.Agrees, Function.update_self]
  exact ⟨⟨served, hplace, hserved⟩, hdead⟩

theorem Kept.start (h : Kept strict w seen) (hs : seen i = .holds x .registered) :
    Kept strict (w.setPhase x .ready) (Function.update seen i (.holds x .started)) := by
  have hagrees := h.agrees i
  rw [hs] at hagrees
  obtain ⟨⟨served, hplace, hserved⟩, halive, hcreated, hmember⟩ := hagrees
  refine h.owner hplace rfl id (fun hexit => ?_) (le_refl _) nofun (fun j _ r hr => ?_) (fun j _ retire hr => ?_) ?_
  · exact hexit.elim nofun fun hclosed => h.dead x (.inr hclosed)
  · exact nomatch hcreated.symm.trans hr
  · exact nomatch hcreated.symm.trans hr
  · simp only [Stage.Agrees, Function.update_self]
    exact ⟨⟨served, hplace, hserved⟩, halive, rfl, hmember⟩

/-- The result, or the end of the context, is seen by the goroutine that waits. -/
theorem Kept.answered (h : Kept strict w seen) {r : Nat} (hs : seen i = .holds x (.sent r))
    (hundisturbed : strict → ∀ j, (w.state x).phase ≠ .replied j true)
    (hrests : strict → (w.done r).isSome ∨ (w.state x).phase.request? = none) :
    Kept strict w (Function.update seen i (.holds x .answered)) := by
  have hagrees := h.agrees i
  rw [hs] at hagrees
  obtain ⟨hplace, hknows⟩ := hagrees
  refine h.stage ⟨hplace, fun hstrict halive => ?_⟩
  obtain ⟨hcreated, hrequest⟩ := hknows hstrict
  have hnone : (w.state x).phase.request? = none := by
    rcases hrests hstrict with hsome | hnone
    · refine Option.eq_none_iff_forall_ne_some.2 fun r' hr' => ?_
      obtain rfl := hrequest r' hr'
      rw [(h.request x _ hr').2] at hsome
      cases hsome
    · exact hnone
  cases hphase : (w.state x).phase with
  | created => exact absurd hphase hcreated
  | ready => rfl
  | received r' req => rw [hphase] at hnone; cases hnone
  | executing j r' => rw [hphase] at hnone; cases hnone
  | replied j retire =>
    cases retire with
    | false => rfl
    | true => exact absurd hphase (hundisturbed hstrict j)
  | exited => exact absurd (halive.symm.trans (h.dead x (.inl hphase))) Bool.false_ne_true

/-- An instance changes hands. -/
theorem Kept.hand (h : Kept strict w seen) {place : Place} {idle : List Nat} (hx : x < w.created) (honce : idle.Nodup)
    (hidle : x ∈ idle ↔ place = .idle) (hothers : ∀ y, y ≠ x → (y ∈ idle ↔ y ∈ w.idle))
    (halive : (w.state x).dead = false → place = .idle ∨ (∃ i, place = .owned i true) → x ∈ w.instances)
    (hplaced : x ∈ w.instances → (w.state x).dead = false → place ≠ .gone)
    (hrests : strict → place = .idle → (w.state x).dead = false ∧ (w.state x).phase.free)
    (huses : ∀ j, j ≠ i → (seen j).Uses x → (∃ r, seen j = .loops x r) ∨ ∃ retire, seen j = .replied x retire)
    (hself : s.Agrees strict ({ w with idle := idle }.setPlace x place) i) :
    Kept strict ({ w with idle := idle }.setPlace x place) (Function.update seen i s) := by
  let st : EngineInstance := { w.state x with place := place }
  have hsame : ∀ y, y ≠ x → Function.update w.state x st y = w.state y := fun y hy => Function.update_of_ne hy ..
  have hthis : Function.update w.state x st x = st := Function.update_self ..
  have hphases : ∀ y, (Function.update w.state x st y).phase = (w.state y).phase := by
    intro y
    rcases eq_or_ne y x with rfl | hne
    · rw [hthis]
    · rw [hsame y hne]
  have hdead : ∀ y, (Function.update w.state x st y).dead = (w.state y).dead := by
    intro y
    rcases eq_or_ne y x with rfl | hne
    · rw [hthis]
    · rw [hsame y hne]
  have hclosed : ∀ y, (Function.update w.state x st y).deadCh = (w.state y).deadCh := by
    intro y
    rcases eq_or_ne y x with rfl | hne
    · rw [hthis]
    · rw [hsame y hne]
  refine ⟨honce, fun y => ?_, h.listed, h.size, fun y hy => ?_, fun y hy => ?_, fun y hy => (hdead y).trans (h.spawned y hy),
    fun y hy hp => ?_, fun y hy ha => ?_, h.requests, fun y r hr => h.request y r (hphases y ▸ hr),
    fun y z r hy hz => h.requested y z r (hphases y ▸ hy) (hphases z ▸ hz), fun hstrict y hy => ?_, fun j => ?_⟩
  · change y ∈ idle ↔ (Function.update w.state x st y).place = _
    rcases eq_or_ne y x with rfl | hne
    · rw [hthis]
      exact hidle
    · rw [hsame y hne]
      exact (hothers y hne).trans (h.idle y)
  · have hne : y ≠ x := fun heq => absurd hx (heq ▸ Nat.not_lt.2 hy)
    change Function.update w.state x st y = _ ∧ _
    rw [hsame y hne]
    exact h.created y hy
  · refine (hdead y).trans (h.dead y ?_)
    rw [← hphases y, ← hclosed y]
    exact hy
  · change (Function.update w.state x st y).place = _ ∨ _ at hp
    have ha := (hdead y).symm.trans hy
    rcases eq_or_ne y x with rfl | hne
    · exact halive ha (by simpa [World.setPlace, World.set, st] using hp)
    · refine h.alive y ha ?_
      simpa [World.setPlace, World.set, hne] using hp
  · have halive' : (w.state y).dead = false := (hdead y).symm.trans ha
    change (Function.update w.state x st y).place ≠ _
    rcases eq_or_ne y x with rfl | hne
    · rw [hthis]
      exact hplaced hy halive'
    · rw [hsame y hne]
      exact h.placed y hy halive'
  · change (Function.update w.state x st y).dead = _ ∧ (Function.update w.state x st y).phase.free
    rw [hdead, hphases]
    rcases eq_or_ne y x with rfl | hne
    · exact hrests hstrict (hidle.1 hy)
    · exact h.rests hstrict y ((hothers y hne).1 hy)
  · rcases eq_or_ne j i with rfl | hj
    · rw [Function.update_self]
      exact hself
    · rw [Function.update_of_ne hj]
      refine (h.agrees j).update rfl rfl id fun hu => ?_
      have hagrees := h.agrees j
      rcases huses j hj hu with ⟨r, hs⟩ | ⟨retire, hs⟩
      · rw [hs] at hagrees ⊢
        exact (hphases x).trans hagrees
      · rw [hs] at hagrees ⊢
        exact (hphases x).trans hagrees

/-- Nobody has what is idle. -/
theorem Kept.idle_uses (h : Kept strict w seen) (hidle : (w.state x).place = .idle) (huses : (seen j).Uses x) :
    (∃ r, seen j = .loops x r) ∨ ∃ retire, seen j = .replied x retire := by
  have hagrees := h.agrees j
  cases hs : seen j with
  | holds y k =>
    rw [hs] at huses hagrees
    cases huses
    obtain ⟨⟨_, hp, _⟩, _⟩ := hagrees
    exact nomatch hidle.symm.trans hp
  | loops y r =>
    rw [hs] at huses
    cases huses
    exact .inl ⟨r, rfl⟩
  | replied y retire =>
    rw [hs] at huses
    cases huses
    exact .inr ⟨retire, rfl⟩
  | built dead y =>
    rw [hs] at huses hagrees
    cases huses
    exact nomatch hidle.symm.trans hagrees.2.1
  | rest => rw [hs] at huses; exact huses.elim
  | replacing dead => rw [hs] at huses; exact huses.elim

theorem Kept.acquire (h : Kept strict w seen) {rest : List Nat} (hidle : w.idle = x :: rest) :
    Kept strict ({ w with idle := rest }.setPlace x (.owned i true)) (Function.update seen i (.holds x .acquired)) := by
  have hmem : x ∈ w.idle := hidle ▸ List.mem_cons_self
  have hplace := (h.idle x).1 hmem
  have honce : (x :: rest).Nodup := hidle ▸ h.once
  obtain ⟨hnot, hrest⟩ := List.nodup_cons.1 honce
  refine h.hand (h.created_of fun heq => ?_) hrest (iff_of_false hnot nofun) (fun y hy => ?_) (fun ha _ => h.alive x ha (.inl hplace))
    (fun _ _ => nofun) (fun _ => nofun) (fun j _ huses => h.idle_uses hplace huses) ?_
  · rw [heq] at hplace
    cases hplace
  · rw [hidle, List.mem_cons]
    exact (or_iff_right hy).symm
  · simp only [Stage.Agrees, World.setPlace, World.set_self]
    exact ⟨⟨true, rfl, fun b hb => Option.some.inj hb⟩, fun hstrict => h.rests hstrict x hmem⟩

/-- Who has the instance finds it dead, and leaves it, or alive. -/
theorem Kept.loadDead (h : Kept strict w seen) {k : Hold} (hk : k ∈ [Hold.acquired, .answered, .killed, .started])
    (hs : seen i = .holds x k) : Kept strict (if (w.state x).dead then w.setPlace x .gone else w)
      (Function.update seen i (if (w.state x).dead then .rest else .holds x .releasing)) := by
  have hagrees := h.agrees i
  rw [hs] at hagrees
  obtain ⟨⟨served, hplace, hserved⟩, hknows⟩ := hagrees
  cases hdead : (w.state x).dead with
  | true =>
    have hnot : x ∉ w.idle := fun hidle => nomatch hplace.symm.trans ((h.idle x).1 hidle)
    refine h.hand (h.created_of fun heq => ?_) h.once (iff_of_false hnot nofun) (fun _ _ => .rfl)
      (fun ha => absurd (ha.symm.trans hdead) Bool.false_ne_true) (fun _ ha => absurd (ha.symm.trans hdead) Bool.false_ne_true)
      (fun _ => nofun) (fun j hj huses => h.others hplace hj huses) trivial
    rw [heq] at hplace
    cases hplace
  | false =>
    refine h.stage ⟨⟨served, hplace, nofun⟩, ?_⟩
    have hmember : served = true → x ∈ w.instances := fun hs => h.alive x hdead (.inr ⟨i, hs ▸ hplace⟩)
    cases k with
    | acquired => exact ⟨hknows, fun _ => hmember (hserved true rfl)⟩
    | answered => exact ⟨fun hstrict => ⟨hdead, hknows hstrict hdead⟩, fun _ => hmember (hserved true rfl)⟩
    | killed => exact absurd (hdead.symm.trans hknows) Bool.false_ne_true
    | started => exact ⟨fun _ => ⟨hknows.1, hknows.2.1⟩, fun _ => hknows.2.2⟩
    | _ => simp at hk

theorem Kept.sendIdle (h : Kept strict w seen) (hs : seen i = .holds x .releasing) :
    Kept strict ({ w with idle := w.idle ++ [x] }.setPlace x .idle) (Function.update seen i .rest) := by
  have hagrees := h.agrees i
  rw [hs] at hagrees
  obtain ⟨⟨served, hplace, -⟩, hrests, hmember⟩ := hagrees
  have hnot : x ∉ w.idle := fun hidle => nomatch hplace.symm.trans ((h.idle x).1 hidle)
  refine h.hand (h.created_of fun heq => ?_) ?_ (iff_of_true (List.mem_append_right _ (List.mem_singleton_self x)) rfl) (fun y hy => ?_)
    (fun ha _ => hmember ha) (fun _ _ => nofun) (fun hstrict _ => hrests hstrict) (fun j hj huses => h.others hplace hj huses) trivial
  · rw [heq] at hplace
    cases hplace
  · exact List.nodup_append_comm.1 (List.nodup_cons.2 ⟨hnot, h.once⟩)
  · rw [List.mem_append, List.mem_singleton]
    exact or_iff_left hy

/-! ### Replacements -/

theorem Kept.newInstance (h : Kept strict w seen) {dead : Nat} (hs : seen i = .replacing dead) :
    Kept strict ({ w with created := w.created + 1 }.set w.created fun _ => { place := .owned i false })
      (Function.update seen i (.built dead w.created)) := by
  have hagrees := h.agrees i
  rw [hs] at hagrees
  obtain ⟨hfresh, hnot⟩ := h.created w.created (le_refl _)
  let st : EngineInstance := { place := .owned i false }
  have hsame : ∀ y, y ≠ w.created → Function.update w.state w.created st y = w.state y := fun y hy => Function.update_of_ne hy ..
  have hthis : Function.update w.state w.created st w.created = st := Function.update_self ..
  have hrequest : ∀ y, (Function.update w.state w.created st y).phase.request? = (w.state y).phase.request? := by
    intro y
    rcases eq_or_ne y w.created with rfl | hne
    · rw [hthis, hfresh]
    · rw [hsame y hne]
  have hdead : ∀ y, (Function.update w.state w.created st y).dead = (w.state y).dead := by
    intro y
    rcases eq_or_ne y w.created with rfl | hne
    · rw [hthis, hfresh]
    · rw [hsame y hne]
  have hlisted : ∀ y ∈ w.instances, y ≠ w.created := fun y hy heq => hnot (heq ▸ hy)
  refine ⟨h.once, fun y => ?_, h.listed, h.size, fun y hy => ?_, fun y => ?_, fun y hy => (hdead y).trans (h.spawned y hy),
    fun y hy hp => ?_, fun y hy ha => ?_, h.requests, fun y r hr => h.request y r (hrequest y ▸ hr),
    fun y z r hy hz => h.requested y z r (hrequest y ▸ hy) (hrequest z ▸ hz), fun hstrict y hy => ?_, fun j => ?_⟩
  · change y ∈ w.idle ↔ (Function.update w.state w.created st y).place = _
    rcases eq_or_ne y w.created with rfl | hne
    · rw [hthis, h.idle, hfresh]
      exact iff_of_false nofun nofun
    · rw [hsame y hne]
      exact h.idle y
  · have hne : y ≠ w.created := Nat.ne_of_gt hy
    change Function.update w.state w.created st y = _ ∧ _
    rw [hsame y hne]
    exact h.created y (Nat.le_of_succ_le hy)
  · change (Function.update w.state w.created st y).phase = _ ∨ (Function.update w.state w.created st y).deadCh = _ →
      (Function.update w.state w.created st y).dead = _
    rcases eq_or_ne y w.created with rfl | hne
    · rw [hthis]
      exact fun hexit => hexit.elim nofun nofun
    · rw [hsame y hne]
      exact h.dead y
  · change (Function.update w.state w.created st y).place = _ ∨ (∃ i, (Function.update w.state w.created st y).place = _) at hp
    rcases eq_or_ne y w.created with rfl | hne
    · rw [hthis] at hp
      exact hp.elim nofun fun ⟨_, howned⟩ => nomatch howned
    · rw [hsame y hne] at hp
      exact h.alive y ((hdead y).symm.trans hy) hp
  · have hne := hlisted y hy
    have halive : (w.state y).dead = false := (hdead y).symm.trans ha
    change (Function.update w.state w.created st y).place ≠ _
    rw [hsame y hne]
    exact h.placed y hy halive
  · have hplace := (h.idle y).1 hy
    have hne : y ≠ w.created := by
      rintro rfl
      rw [hfresh] at hplace
      cases hplace
    change (Function.update w.state w.created st y).dead = _ ∧ (Function.update w.state w.created st y).phase.free
    rw [hsame y hne]
    exact h.rests hstrict y hy
  · rcases eq_or_ne j i with rfl | hj
    · rw [Function.update_self]
      simp only [Stage.Agrees, World.set_self]
      exact ⟨(hdead dead).trans hagrees, trivial, trivial, trivial, hnot⟩
    · rw [Function.update_of_ne hj]
      have hother := h.agrees j
      have hstate : ({ w with created := w.created + 1 }.set w.created fun _ => st).state
          = Function.update w.state w.created st := rfl
      refine hother.update hstate rfl (fun hd => by rw [hfresh] at hd; cases hd) fun huses => ?_
      -- nobody has used it yet
      cases hsj : seen j with
      | holds y k =>
        rw [hsj] at huses hother
        cases huses
        obtain ⟨⟨_, hp, _⟩, _⟩ := hother
        rw [hfresh] at hp
        cases hp
      | loops y r =>
        rw [hsj] at huses hother
        cases huses
        rw [Stage.Agrees, hfresh] at hother
        cases hother
      | replied y retire =>
        rw [hsj] at huses hother
        cases huses
        rw [Stage.Agrees, hfresh] at hother
        cases hother
      | built d y =>
        rw [hsj] at huses hother
        cases huses
        have hp := hother.2.1
        rw [hfresh] at hp
        cases hp
      | rest => rw [hsj] at huses; exact huses.elim
      | replacing d => rw [hsj] at huses; exact huses.elim

/-- The list changes where an instance is dead. -/
theorem Kept.relist (h : Kept strict w seen) {d n : Nat} {instances : List Nat} (hdead : (w.state d).dead = true)
    (hlisted : instances.Nodup) (hsize : instances.length + n = w.size)
    (hkept : ∀ y ∈ w.instances, y ≠ d → y ∈ instances)
    (hnew : ∀ y ∈ instances, y ∈ w.instances ∨ seen i = .built d y)
    (hself : s.Agrees strict { w with instances := instances, failed := n } i) :
    Kept strict { w with instances := instances, failed := n } (Function.update seen i s) := by
  have hstays : ∀ y, (w.state y).dead = false → y ∈ w.instances → y ∈ instances := fun y ha hy =>
    hkept y hy fun heq => Bool.false_ne_true ((heq ▸ ha).symm.trans hdead)
  have hbuilt : ∀ y, seen i = .built d y → (w.state y).place = .owned i false := fun y hy => by
    have hagrees := h.agrees i
    rw [hy] at hagrees
    exact hagrees.2.1
  refine ⟨h.once, h.idle, hlisted, hsize, fun y hy => ⟨(h.created y hy).1, fun hmem => ?_⟩, h.dead, h.spawned,
    fun y ha hp => hstays y ha (h.alive y ha hp), fun y hy ha => ?_, h.requests, h.request, h.requested, h.rests, fun j => ?_⟩
  · rcases hnew y hmem with hmem | hs
    · exact (h.created y hy).2 hmem
    · have hplace := hbuilt y hs
      rw [(h.created y hy).1] at hplace
      cases hplace
  · rcases hnew y hy with hmem | hs
    · exact h.placed y hmem ha
    · exact fun hgone => nomatch (hbuilt y hs).symm.trans hgone
  · rcases eq_or_ne j i with rfl | hj
    · rw [Function.update_self]
      exact hself
    · rw [Function.update_of_ne hj]
      have hagrees := h.agrees j
      cases hs : seen j with
      | holds y k =>
        rw [hs] at hagrees
        obtain ⟨hplace, hknows⟩ := hagrees
        refine ⟨hplace, ?_⟩
        cases k with
        | registered => exact ⟨hknows.1, hknows.2.1, hstays y hknows.1 hknows.2.2⟩
        | started => exact ⟨hknows.1, hknows.2.1, hstays y hknows.1 hknows.2.2⟩
        | releasing => exact ⟨hknows.1, fun ha => hstays y ha (hknows.2 ha)⟩
        | _ => exact hknows
      | built d y =>
        rw [hs] at hagrees
        obtain ⟨hd, hplace, ha, hphase, hnot⟩ := hagrees
        refine ⟨hd, hplace, ha, hphase, fun hmem => ?_⟩
        rcases hnew y hmem with hmem | hs
        · exact hnot hmem
        · exact hj (Place.owned.inj (hplace.symm.trans (hbuilt y hs))).1
      | rest => trivial
      | _ => rw [hs] at hagrees; exact hagrees

/-- A new instance takes the place of a dead one. -/
theorem Kept.replace (h : Kept strict w seen) {dead : Nat} (hs : seen i = .built dead x) (hmem : dead ∈ w.instances) :
    Kept strict { w with instances := w.instances.map fun y => if y = dead then x else y }
      (Function.update seen i (.holds x .registered)) := by
  have hagrees := h.agrees i
  rw [hs] at hagrees
  obtain ⟨hdead, hplace, ha, hphase, hnot⟩ := hagrees
  have hnew : ∀ y ∈ w.instances.map fun y => if y = dead then x else y, y ∈ w.instances ∨ y = x := by
    intro y hy
    obtain ⟨z, hz, rfl⟩ := List.mem_map.1 hy
    split
    · exact .inr rfl
    · exact .inl hz
  refine h.relist (n := w.failed) hdead (h.listed.map_on fun y hy z hz heq => ?_) ?_ (fun y hy hne => ?_) (fun y hy => ?_) ?_
  · by_cases hyd : y = dead
    · by_cases hzd : z = dead
      · rw [hyd, hzd]
      · rw [if_pos hyd, if_neg hzd] at heq
        exact absurd (heq ▸ hz) hnot
    · by_cases hzd : z = dead
      · rw [if_neg hyd, if_pos hzd] at heq
        exact absurd (heq ▸ hy) hnot
      · rwa [if_neg hyd, if_neg hzd] at heq
  · rw [List.length_map]
    exact h.size
  · exact List.mem_map.2 ⟨y, hy, if_neg hne⟩
  · rcases hnew y hy with hy | rfl
    · exact .inl hy
    · exact .inr hs
  · exact ⟨⟨false, hplace, fun b hb => (Option.some.inj hb).symm ▸ rfl⟩, ha, hphase, List.mem_map.2 ⟨dead, hmem, if_pos rfl⟩⟩

/-- A dead instance that could not be replaced is removed. -/
theorem Kept.remove (h : Kept strict w seen) {dead : Nat} (hs : seen i = .replacing dead) (hmem : dead ∈ w.instances) :
    Kept strict { w with instances := w.instances.erase dead, failed := w.failed + 1 } (Function.update seen i .rest) := by
  have hagrees := h.agrees i
  rw [hs] at hagrees
  refine h.relist (d := dead) hagrees (h.listed.erase dead) ?_ (fun y hy hne => (List.mem_erase_of_ne hne).2 hy)
    (fun y hy => .inl (List.mem_of_mem_erase hy)) trivial
  have hlength := List.length_erase_of_mem hmem
  have hpos := List.length_pos_of_mem hmem
  have hsize := h.size
  omega

/-! ### Calls -/

/-- Every call keeps the pool in order, in a strict run if it is not disturbed. -/
theorem Step.kept {β : Type} {o : Op β} {r : β} (h : Step i o w r w') (hallows : (seen i).Allows o)
    (hundisturbed : strict → Undisturbed i o w) (hw : Kept strict w seen) :
    Kept strict w' (Function.update seen i ((seen i).next o r)) := by
  have hagrees := hw.agrees i
  cases o with
  | selectIdle =>
    rcases h with ⟨x, rest, hidle, rfl, rfl⟩ | ⟨-, rfl, rfl⟩
    · exact hw.acquire hidle
    · exact hw.same i
  | selectSend x req =>
    rcases h with ⟨hphase, rfl, rfl⟩ | ⟨-, rfl, rfl⟩
    · exact hw.send hallows hphase
    · exact hw.same i
  | selectReply x n =>
    obtain ⟨rfl, hreply⟩ := h
    rcases hreply with ⟨res, hdone, rfl⟩ | rfl | ⟨hcancelled, rfl⟩
    · exact hw.answered hallows (fun hs => (hundisturbed hs).2) fun _ => .inl (hdone ▸ rfl)
    · rw [hallows] at hagrees
      exact hw.stage ⟨hagrees.1, trivial⟩
    · exact hw.answered hallows (fun hs => (hundisturbed hs).2) fun hs => .inr ((hundisturbed hs).1 hcancelled)
  | casDead x =>
    obtain ⟨-, rfl⟩ := h
    exact hw.casDead hallows
  | closeDeadCh x =>
    cases h
    have hkept := hw.closeDeadCh hallows
    rwa [← hallows] at hkept
  | goReplace x =>
    cases h
    rw [hallows] at hagrees
    refine Kept.same ?_ i
    exact { hw with spawned := fun y hy => (List.mem_cons.1 hy).elim (fun heq => heq ▸ hagrees.2) (hw.spawned y) }
  | loadDead x =>
    obtain ⟨rfl, rfl⟩ := h
    obtain ⟨k, hk, hs⟩ := hallows
    exact hw.loadDead hk hs
  | sendIdle x =>
    obtain ⟨-, rfl⟩ := h
    exact hw.sendIdle hallows
  | selectRun x =>
    rcases h with ⟨n, req, hphase, rfl, rfl⟩ | ⟨hphase, hclosed, rfl, rfl⟩
    · exact hw.received hphase
    · have hkept := hw.exits (i := i) hphase hclosed
      rwa [← hallows] at hkept
  | evalToString x req =>
    cases h
    exact hw.same i
  | reply x n res retire =>
    cases h
    rw [hallows] at hagrees
    exact hw.reply hagrees
  | storeDead x =>
    cases h
    rw [hallows] at hagrees
    exact hw.storeDead hagrees
  | listen x =>
    cases h
    rw [hallows] at hagrees
    exact hw.listen hagrees
  | spawned =>
    obtain ⟨hmem, rfl⟩ := h
    refine Kept.stage ?_ (hw.spawned r hmem)
    exact { hw with spawned := fun y hy => hw.spawned y (List.mem_of_mem_erase hy) }
  | newInstance =>
    obtain ⟨dead, hs⟩ := hallows
    rcases h with ⟨⟨err, rfl⟩, rfl⟩ | ⟨rfl, rfl⟩
    · have hkept := hw.same i
      rw [hs] at hkept ⊢
      exact hkept
    · rw [hs]
      exact hw.newInstance hs
  | register dead repl =>
    obtain ⟨rfl, rfl⟩ := h
    cases repl with
    | none =>
      by_cases hmem : dead ∈ w.instances
      · rw [if_neg (not_not_intro hmem), decide_eq_true hmem]
        exact hw.remove hallows hmem
      · rw [if_pos hmem, decide_eq_false hmem]
        exact hw.stage trivial
    | some x =>
      by_cases hmem : dead ∈ w.instances
      · rw [if_neg (not_not_intro hmem), decide_eq_true hmem]
        exact hw.replace hallows hmem
      · rw [if_pos hmem, decide_eq_false hmem]
        exact hw.stage trivial
  | start x =>
    cases h
    exact hw.start hallows

/-! ### What follows -/

/-- An instance that is not lost is idle, in use or being replaced, and one of these only. -/
theorem EngineInstance.uses (st : EngineInstance) (h : st.dead = false → st.place ≠ .gone) :
    st.isIdle.toNat + st.isUsed.toNat + st.isReplaced.toNat = 1 := by
  unfold EngineInstance.isIdle EngineInstance.isUsed EngineInstance.isReplaced
  cases hdead : st.dead with
  | true => rfl
  | false =>
    cases hplace : st.place with
    | idle => rfl
    | gone => exact absurd hplace (h hdead)
    | owned j served =>
      cases served with
      | true => rfl
      | false => rfl

theorem countP_cons_toNat (p : Nat → Bool) (x : Nat) (l : List Nat) : (x :: l).countP p = l.countP p + (p x).toNat := by
  rw [List.countP_cons]
  cases p x with
  | true => rfl
  | false => rfl

theorem countP_sum {p q r : Nat → Bool} {l : List Nat} (h : ∀ x ∈ l, (p x).toNat + (q x).toNat + (r x).toNat = 1) :
    l.countP p + l.countP q + l.countP r = l.length := by
  induction l with
  | nil => rfl
  | cons x l ih =>
    have hx := h x List.mem_cons_self
    have ih := ih fun y hy => h y (List.mem_cons_of_mem _ hy)
    rw [countP_cons_toNat, countP_cons_toNat, countP_cons_toNat, List.length_cons]
    omega

/-- The instances that are idle are those of the list. -/
theorem Kept.idle_length (h : Kept True w seen) : w.instances.countP (fun x => (w.state x).isIdle) = w.idle.length := by
  rw [List.countP_eq_length_filter]
  refine List.Perm.length_eq ((List.perm_ext_iff_of_nodup (h.listed.filter _) h.once).2 fun x => ?_)
  rw [List.mem_filter, h.idle]
  constructor
  · rintro ⟨-, hidle⟩
    have hboth := Bool.and_eq_true_iff.1 hidle
    exact of_decide_eq_true hboth.2
  · intro hplace
    have halive := (h.rests trivial x ((h.idle x).2 hplace)).1
    refine ⟨h.alive x halive (.inl hplace), ?_⟩
    rw [EngineInstance.isIdle, halive, hplace]
    rfl

theorem Kept.inOrder (h : Kept True w seen) : w.InOrder where
  alive x hx := by
    obtain ⟨halive, hfree⟩ := h.rests trivial x hx
    refine ⟨halive, fun hphase => ?_⟩
    rw [hphase] at hfree
    cases hfree
  rests x hx := by
    have hfree := (h.rests trivial x hx).2
    cases hphase : (w.state x).phase with
    | received r req => rw [hphase] at hfree; cases hfree
    | executing j r => rw [hphase] at hfree; cases hfree
    | _ => rfl
  capacity := by
    have hsum := countP_sum fun x hx => (w.state x).uses (h.placed x hx)
    rw [← h.size, ← h.idle_length, ← hsum]
    rfl

end kept

/-! ## Runs -/

/-- What is configured stays. -/
theorem Step.size {i : Nat} {β : Type} {o : Op β} {w w' : World} {r : β} (h : Step i o w r w') : w'.size = w.size := by
  cases o with
  | selectIdle => rcases h with ⟨x, rest, -, -, rfl⟩ | ⟨-, -, rfl⟩ <;> rfl
  | selectSend x req => rcases h with ⟨-, -, rfl⟩ | ⟨-, -, rfl⟩ <;> rfl
  | selectReply x n => exact h.1 ▸ rfl
  | casDead x => exact h.2 ▸ rfl
  | loadDead x =>
    obtain ⟨-, rfl⟩ := h
    split <;> rfl
  | sendIdle x => exact h.2 ▸ rfl
  | selectRun x => rcases h with ⟨n, req, -, -, rfl⟩ | ⟨-, -, -, rfl⟩ <;> rfl
  | spawned => exact h.2 ▸ rfl
  | newInstance => rcases h with ⟨-, rfl⟩ | ⟨-, rfl⟩ <;> rfl
  | register dead repl =>
    obtain ⟨-, rfl⟩ := h
    split
    · rfl
    · cases repl <;> rfl
  | _ => exact h ▸ rfl

theorem run_kept (strict : Prop) {C : Nat → {β : Type} → Op β → World → Prop}
    (hC : ∀ i {β : Type} (o : Op β) w, C i o w → strict → Undisturbed i o w) (svc : Service) (size : Nat)
    {past : List (Pool Op World Unit)} {p : Pool Op World Unit}
    (h : Run (Pool.Next (machine.given C) (Program svc)) (.idle (newEnginePool size)) past p) :
    (∃ seen, Kept strict p.shared seen) ∧ p.shared.size = size := by
  obtain ⟨past', q, hrun, rfl⟩ := Pool.run_watched (W := monitor) h
  have hboth : Kept strict q.shared.1 q.shared.2 ∧ q.shared.1.size = size := by
    refine Pool.watched_invariant (I := fun x : World × (Nat → Stage) => Kept strict x.1 x.2 ∧ x.1.size = size) hrun
      (fun m hm => program_accepts hm) ⟨newEnginePool_kept size, rfl⟩ ?_ ?_ ?_
    · intro i β o r x x' hx hallows _ hstep hseen
      rw [hseen]
      exact ⟨hstep.2.kept hallows (hC i o _ hstep.1) hx.1, hstep.2.size.trans hx.2⟩
    · intro i x hx
      exact ⟨hx.1.stage trivial, hx.2⟩
    · intro x w' hx henv
      obtain ⟨cancelled, rfl⟩ := henv
      obtain ⟨hkept, hsize⟩ := hx
      exact ⟨⟨hkept.once, hkept.idle, hkept.listed, hkept.size, hkept.created, hkept.dead, hkept.spawned, hkept.alive, hkept.placed,
        hkept.requests, hkept.request, hkept.requested, hkept.rests, hkept.agrees⟩, hsize⟩
  exact ⟨⟨q.shared.2, hboth.1⟩, hboth.2⟩

/-- In every run no instance is idle twice, and the list of instances is as long as configured, less the
replacements that have failed. Where no caller is cancelled while its request is executed, and none sees its
result before the instance that is to be retired is dead, what is idle is alive and executes nothing,
and every instance of the list is idle, in use or being replaced. -/
theorem capacity_kept (svc : Service) (size : Nat) (past : List (Pool Op World Unit)) (p : Pool Op World Unit) :
    (Run (Pool.Next machine (Program svc)) (.idle (newEnginePool size)) past p →
      p.shared.idle.Nodup ∧ p.shared.instances.length + p.shared.failed = size) ∧
    (Run (Pool.Next (machine.given Undisturbed) (Program svc)) (.idle (newEnginePool size)) past p →
      p.shared.InOrder ∧ p.shared.size = size) := by
  constructor
  · intro h
    have hgiven : Run (Pool.Next (machine.given fun _ _ _ _ => True) (Program svc)) (.idle (newEnginePool size)) past p := by
      refine h.mono fun q q' hstep => ?_
      cases hstep with
      | start hi hm => exact .start hi hm
      | exec hi hs => exact .exec hi ⟨trivial, hs⟩
      | finish hi => exact .finish hi
      | crash hi => exact .crash hi
      | env hs => exact .env hs
    obtain ⟨⟨seen, hkept⟩, hsize⟩ := run_kept False (fun _ _ _ _ _ h => h.elim) svc size hgiven
    exact ⟨hkept.once, hkept.size.trans hsize⟩
  · intro h
    obtain ⟨⟨seen, hkept⟩, hsize⟩ := run_kept True (fun _ _ _ _ h _ => h) svc size h
    exact ⟨hkept.inOrder, hsize⟩

/-! ### A replacement that fails -/

def Phase.retires : Phase → Bool
  | .replied _ retire => retire
  | _ => false

def undisturbed (i : Nat) : {β : Type} → Op β → World → Bool
  | _, .selectReply x _, w => (w.cancelled i → (w.state x).phase.request? = none) ∧ (w.state x).phase.retires = false
  | _, _, _ => true

theorem undisturbed_holds (i : Nat) {β : Type} (o : Op β) (w : World) (h : undisturbed i o w) : Undisturbed i o w := by
  cases o with
  | selectReply x r =>
    obtain ⟨hcancelled, hretire⟩ := of_decide_eq_true h
    refine ⟨hcancelled, fun j hphase => ?_⟩
    rw [hphase] at hretire
    cases hretire
  | _ => trivial

/-- A page is rendered. -/
def renders : Turns := calls 0 (.render "home" "/" "") 2 ++ calls 1 (.run 0) 4 ++ [.calls 0 3]

theorem renders_legal {M : Machine Op World} : renders.Forall (Turn.Legal M (Program plainService)) := by
  refine List.forall_append.2 ⟨List.forall_append.2 ⟨calls_legal .., calls_legal ..⟩, ?_⟩
  trivial

theorem capacity_kept_rendered : ∃ past p, p.shared.done 0 = some ⟨"render:home", none⟩ ∧
    (p.shared.idle.Nodup ∧ p.shared.instances.length + p.shared.failed = 2) ∧ p.shared.InOrder ∧
    Run (Pool.Next (machine.given Undisturbed) (Program plainService)) (.idle (newEnginePool 2)) past p := by
  have hplay : (Pool.play (guarded undisturbed execs) renders (.idle (newEnginePool 2))).any fun p =>
      p.shared.done 0 = some ⟨"render:home", none⟩ := by decide
  obtain ⟨past, p, hrun, hcheck⟩ := Pool.play_any (guarded_step undisturbed_holds execs_step) renders_legal hplay
  have hkept := capacity_kept plainService 2 past p
  have hplain : Run (Pool.Next machine (Program plainService)) (.idle (newEnginePool 2)) past p :=
    hrun.mono fun _ _ hstep => hstep.of_given
  exact ⟨past, p, of_decide_eq_true hcheck, hkept.1 hplain, (hkept.2 hrun).1, hrun⟩

/-- A render takes too long, its instance is killed, and no other can be created. -/
def shrinks : Turns := calls 0 (.render "home" "/" "") 7 ++ calls 1 .replaceInstance 3

theorem shrinks_legal {M : Machine Op World} : shrinks.Forall (Turn.Legal M (Program plainService)) :=
  List.forall_append.2 ⟨calls_legal .., calls_legal ..⟩

theorem capacity_shrinks : ¬ ∀ (svc : Service) (size : Nat) past (p : Pool Op World Unit),
    Run (Pool.Next machine (Program svc)) (.idle (newEnginePool size)) past p →
    (∀ x ∈ p.shared.idle, (p.shared.state x).dead = false ∧ (p.shared.state x).phase.request? = none) ∧
    p.shared.idle.Nodup ∧ p.shared.idle.length + p.shared.inUse + p.shared.beingReplaced = size := by
  intro h
  have hplay : (Pool.play execs shrinks (.idle (newEnginePool 2))).any fun p =>
      p.shared.idle.length + p.shared.inUse + p.shared.beingReplaced = 1 := by decide
  obtain ⟨past, p, hrun, hcheck⟩ := Pool.play_any execs_step shrinks_legal hplay
  obtain ⟨-, -, hcapacity⟩ := h plainService 2 past p hrun
  cases hcapacity.symm.trans (of_decide_eq_true hcheck)

end Ploykit.Renderx

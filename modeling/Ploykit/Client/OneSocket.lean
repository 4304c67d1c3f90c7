import Ploykit.Client.Frames
import Ploykit.Client.Scopes

/-!
# One socket

A close event that comes while the client is not stopped should be one of the socket that the
client holds, a disposer should not release what others have subscribed, and a listener
should not close or reconnect what a call is about to create. Then at most one socket is live, none
after `close()`, and it carries the scopes that are referenced.
-/

namespace Ploykit.Client

variable {opts : WsClientOptions} {now : Int} {w w' : World} {a : Action} {i : Nat} {s : WebSocket} {r : Rest}

open Wiring

/-! ## Rests of calls -/

/-- The connection is sound, and carries the scopes. -/
structure Inv (opts : WsClientOptions) (w : World) : Prop where
  sound : w.wiring.Sound opts
  scopes : Scoped w

theorem finish_inv (h : Inv opts (w.push r)) : Inv opts (w.finish opts now r) := ⟨finish_sound h.sound, finish_scoped h.sound h.scopes⟩

theorem setStatus_inv {status : WsStatus} (h : Inv opts (w.push r)) : Inv opts (w.setStatus opts now status r) :=
  ⟨setStatus_sound h.sound, setStatus_scoped h.sound h.scopes⟩

theorem Scoped.push (h : Scoped w) : Scoped (w.push r) :=
  h.shrink rfl rfl (fun _ _ hs _ => hs) fun _ hi => List.mem_cons_of_mem r hi

/-- A reconnection is scheduled where nothing is live any more. -/
theorem scheduleReconnect_inv (h : (w.setSocket none).wiring.Dead)
    (hintervals : ∀ id ∈ w.intervals, w.client.heartbeatTimer = some id) (hrun : w.client.stopped = false) (hrests : w.rests = [])
    (hscoped : Scoped w) : Inv opts (w.scheduleReconnect opts now) := by
  have hstop : (w.setSocket none).stopHeartbeat.wiring = _ := stopHeartbeat_wiring hintervals
  have hpush : ∀ v : World, (v.push .retry).wiring = { v.wiring with rests := .retry :: v.wiring.rests } := fun v => rfl
  refine setStatus_inv ⟨?_, ?_⟩
  · rw [hpush, hstop]
    refine Bare.sound { h with intervals := rfl } ?_
    change Pending opts false (!w.client.stopped) (.retry :: w.rests)
    rw [hrests, hrun]
    exact .retry rfl rfl
  · have hsockets : (w.setSocket none).stopHeartbeat.sockets = w.sockets := congrArg Wiring.sockets hstop
    refine Scoped.push (hscoped.shrink stopHeartbeat_books (congrArg Wiring.nextSocket hstop) (fun i s hs _ => hsockets ▸ hs) fun i hi => ?_)
    rw [hrests] at hi
    cases hi

/-- A socket is opened where nothing is live. -/
theorem openSocket_inv {status : WsStatus} {held : Bool} (h : w.wiring.Bare) (hrun : w.client.stopped = false)
    (hpending : Pending opts held true w.rests) (hhead : ∀ r, w.rests.head? = some r → ∃ i, r = .opened i) (hscoped : Scoped w) :
    Inv opts (w.openSocket opts now status) := by
  refine setStatus_inv ⟨Bare.sound { h with } ?_, hscoped.push⟩
  change Pending opts false (!w.client.stopped) (.create :: w.rests)
  rw [hrun]
  exact hpending.create_cons hhead rfl

/-! ## What the actions should not do -/

/-- A close event that comes while the client is not stopped is one of the socket that it holds, a disposer that is called again
releases nothing, and what a call is about to create is not dropped by a listener. -/
def Careful (opts : WsClientOptions) (w : World) : Action → Prop
  | .closed i => (w.sockets i).any WebSocket.attached → w.client.stopped = false → w.client.socket = some i
  | .dispose t => ∀ k, w.subscriptions[t]? = some (k, true) → w.refs k = 0
  | .close => ∀ r, w.rests.head? = some r → ∃ i, r = .opened i ∧ opts.heartbeatMs ≤ 0
  | .reconnect => w.client.stopped = false → ∀ r, w.rests.head? = some r → ∃ i, r = .opened i
  | _ => True

/-! ### Calls -/

theorem connect_inv (h : Inv opts w) : Inv opts (w.connect opts now) := by
  unfold World.connect
  split
  · exact h
  · rename_i hstopped
    have hstopped : w.client.stopped = true := by simpa using hstopped
    have hbare : w.wiring.Bare := h.sound.bare (h.sound.stopped hstopped) (h.sound.no_timeouts (.inr (.inr hstopped)))
    have hpending : Pending opts w.client.socket.isSome (!w.client.stopped) w.rests := h.sound.pending
    rw [hstopped] at hpending
    obtain ⟨hrun, hhead⟩ := hpending.of_stopped
    exact openSocket_inv { hbare with } rfl hrun hhead (h.scopes.shrink rfl rfl (fun _ _ hs _ => hs) fun _ hi => hi)

theorem close_inv (h : Inv opts w) (hcareful : Careful opts w .close) : Inv opts w.close := by
  have hcleared := cleared_wiring h.sound
  have hbare := closeSocket_bare (cleared_sound h.sound) (congrArg Wiring.timeouts hcleared) (congrArg Wiring.intervals hcleared)
  have hrests : w.stopHeartbeat.clearReconnect.closeSocket.rests = w.rests :=
    closeSocket_rests.trans (congrArg Wiring.rests hcleared)
  have hnext : w.stopHeartbeat.clearReconnect.closeSocket.nextSocket = w.nextSocket :=
    closeSocket_next.trans (congrArg Wiring.nextSocket hcleared)
  have hwiring : w.close.wiring = _ := close_wiring
  constructor
  · rw [hwiring]
    refine Bare.sound { hbare with } ?_
    change Pending opts false false w.stopHeartbeat.clearReconnect.closeSocket.rests
    have hpending : Pending opts w.client.socket.isSome (!w.client.stopped) w.rests := h.sound.pending
    have hhead : ∀ r, w.rests.head? = some r → ∃ i, r = .opened i ∧ opts.heartbeatMs ≤ 0 := hcareful
    rw [hrests]
    generalize w.rests = rests at hpending hhead
    exact hpending.stop hhead
  · refine h.scopes.of_dead ?_ close_books ((congrArg Wiring.nextSocket hwiring).trans hnext)
    rw [hwiring]
    exact { hbare.toDead with }

theorem reconnect_inv (h : Inv opts w) (hcareful : Careful opts w .reconnect) : Inv opts (w.reconnect opts now) := by
  unfold World.reconnect
  split
  · exact h
  · rename_i hstopped
    have hrun : w.client.stopped = false := by simpa using hstopped
    have hcleared := cleared_wiring h.sound
    have hbare := discardSocket_bare (cleared_sound h.sound) (congrArg Wiring.timeouts hcleared) (congrArg Wiring.intervals hcleared)
    have hrests : w.stopHeartbeat.clearReconnect.discardSocket.rests = w.rests :=
      discardSocket_rests.trans (congrArg Wiring.rests hcleared)
    have hnext : w.stopHeartbeat.clearReconnect.discardSocket.nextSocket = w.nextSocket :=
      discardSocket_next.trans (congrArg Wiring.nextSocket hcleared)
    have hstopped' : w.stopHeartbeat.clearReconnect.discardSocket.client.stopped = false :=
      discardSocket_stopped.trans ((congrArg Wiring.stopped hcleared).trans hrun)
    have hpending : Pending opts w.client.socket.isSome (!w.client.stopped) w.rests := h.sound.pending
    rw [hrun] at hpending
    have hscopes : Scoped w.stopHeartbeat.clearReconnect.discardSocket := h.scopes.of_dead hbare.toDead (by simp) hnext
    exact openSocket_inv hbare hstopped' (hrests ▸ hpending) (hrests ▸ hcareful hrun) hscopes

/-! ### Events -/

/-- A socket may die. -/
theorem modifySocket_scoped {f : WebSocket → WebSocket} (h : Scoped w) (hf : ∀ t, w.sockets i = some t → (f t).live = false) :
    Scoped (w.modifySocket i f) := by
  refine h.shrink rfl rfl (fun j s hs hlive => ?_) fun j hj => hj
  cases modifySocket_sockets hs with
  | inl hself =>
    obtain ⟨-, t, ht, rfl⟩ := hself
    exact absurd hlive (by simp [hf t ht])
  | inr hother => exact hother.2

theorem modifySocket_inv {f : WebSocket → WebSocket} (h : Inv opts w) (hf : ∀ t, (f t).live = false)
    (hattached : ∀ t, (f t).attached = t.attached) : Inv opts (w.modifySocket i f) :=
  ⟨modifySocket_sound h.sound (fun t _ hlive => absurd hlive (by simp [hf t])) hattached, modifySocket_scoped h.scopes fun t _ => hf t⟩

/-- A socket that opens carries nothing yet. -/
theorem opened_scoped (h : Scoped w) (hi : w.sockets i = some s) (hlive : s.live) (hs : s.readyState = .connecting) :
    Scoped ((w.modifySocket i fun s => { s with readyState := .open }).push (.opened i)) where
  refs := h.refs
  pos := h.pos
  fresh := h.fresh
  connecting j t ht hl hconn := by
    cases modifySocket_sockets ht with
    | inl hself =>
      obtain ⟨-, u, -, rfl⟩ := hself
      cases hconn
    | inr hother => exact h.connecting j t hother.2 hl hconn
  only j t ht hl hopen k hk := by
    cases modifySocket_sockets ht with
    | inl hself =>
      have hnone : w.subscribed j = ∅ := hself.1 ▸ h.connecting i s hi hlive hs
      change k ∈ w.subscribed j at hk
      rw [hnone] at hk
      exact absurd hk (Finset.notMem_empty k)
    | inr hother => exact h.only j t hother.2 hl hopen k hk
  all j t ht hl hopen hmem k hk := by
    cases modifySocket_sockets ht with
    | inl hself => exact absurd (hself.1 ▸ List.mem_cons_self) hmem
    | inr hother => exact h.all j t hother.2 hl hopen (fun hold => hmem (List.mem_cons_of_mem _ hold)) k hk

theorem opened_inv (h : Inv opts w) (hrests : w.rests = []) (hi : w.sockets i = some s) (hs : s.readyState = .connecting) :
    Inv opts ((w.modifySocket i fun s => { s with readyState := .open }).handle i fun w => w.setStatus opts now .open (.opened i)) := by
  have hopen : (w.modifySocket i fun s => { s with readyState := .open }).wiring.Sound opts := by
    refine modifySocket_sound h.sound (fun t ht hlive => ?_) fun t => rfl
    cases hi.symm.trans ht
    unfold WebSocket.live at hlive ⊢
    simpa [hs] using hlive
  unfold World.handle
  split
  · rename_i hattached
    rw [modifySocket_self hi, Option.any_some] at hattached
    have hlive : s.live = true := by
      unfold WebSocket.live
      simp [hs, show s.attached = true from hattached]
    have hheld : w.client.socket = some i := h.sound.held i s hi hlive
    refine setStatus_inv ⟨{ hopen with waiting := fun hne => absurd (h.sound.no_timeouts (.inl ?_)) hne, pending := ?_ }, ?_⟩
    · change w.client.socket ≠ none
      rw [hheld]
      exact Option.some_ne_none i
    · change Pending opts w.client.socket.isSome _ (.opened i :: w.rests)
      rw [hrests, hheld]
      exact .opened i (.inl rfl)
    · exact opened_scoped h.scopes hi hlive hs
  · rename_i hdetached
    rw [modifySocket_self hi, Option.any_some] at hdetached
    refine ⟨hopen, modifySocket_scoped h.scopes fun t ht => ?_⟩
    cases hi.symm.trans ht
    unfold WebSocket.live
    simp [show ¬ s.attached = true from hdetached]

theorem closed_inv (h : Inv opts w) (hrests : w.rests = []) (hi : w.sockets i = some s) (hcareful : Careful opts w (.closed i)) :
    Inv opts ((w.modifySocket i fun s => { s with readyState := .closed }).handle i (World.onclose opts now)) := by
  have hclosed : Inv opts (w.modifySocket i fun s => { s with readyState := .closed }) :=
    modifySocket_inv h not_live_closed fun t => rfl
  unfold World.handle
  split
  · rename_i hattached
    rw [modifySocket_self hi, Option.any_some] at hattached
    unfold World.onclose
    split
    · exact hclosed
    · rename_i hstopped
      have hrun : w.client.stopped = false := Bool.not_eq_true _ ▸ hstopped
      have hany : (w.sockets i).any WebSocket.attached := by
        rw [hi]
        exact hattached
      have hheld : w.client.socket = some i := hcareful hany hrun
      exact scheduleReconnect_inv (dead_modify not_live_closed h.sound hheld) h.sound.intervals hrun hrests hclosed.scopes
  · exact hclosed

theorem timeout_inv {id : Nat} (h : Inv opts w) (hid : id ∈ w.timeouts) :
    Inv opts ({ w with timeouts := w.timeouts.filter (· ≠ id) }.onTimeout opts now) := by
  obtain ⟨hsocket, hrests, hrun⟩ := h.sound.waiting (List.ne_nil_of_mem hid)
  have hsocket : w.client.socket = none := hsocket
  have hrests : w.rests = [] := hrests
  have hrun : w.client.stopped = false := hrun
  have hnil : w.timeouts.filter (· ≠ id) = [] :=
    filter_ne_eq_nil fun x hx => (h.sound.timeouts id hid).symm.trans (h.sound.timeouts x hx)
  unfold World.onTimeout
  simp only [hrun, hnil, Bool.not_false, if_true]
  have hbare : Bare { w.wiring with reconnectTimer := none, timeouts := [] } := h.sound.unwait.bare hsocket rfl
  have hidle : Pending opts false true w.rests := hrests ▸ .idle
  refine openSocket_inv { hbare with } rfl hidle (fun r hr => ?_) (h.scopes.shrink rfl rfl (fun _ _ hs _ => hs) fun _ hi => hi)
  change w.rests.head? = some r at hr
  rw [hrests] at hr
  cases hr

/-- A ping subscribes nothing. -/
theorem send_ping : w.send .ping = w := by
  unfold World.send
  split
  · rw [Control.apply, Function.update_eq_self]
  · rfl

theorem tick_inv (h : Inv opts w) (hrests : w.rests = []) (hbeat : w.intervals ≠ []) : Inv opts (w.onTick opts now) := by
  have hsocket : w.client.socket.isSome := h.sound.beating hbeat
  have hrun : w.client.stopped = false := by
    cases hstopped : w.client.stopped with
    | false => rfl
    | true => exact absurd hsocket (by simp [show w.client.socket = none from h.sound.stopped hstopped])
  have htimeouts : w.timeouts = [] := h.sound.no_timeouts (.inl (Option.isSome_iff_ne_none.1 hsocket))
  unfold World.onTick
  split
  · have hstop := stopHeartbeat_wiring h.sound.intervals
    have hsound : w.stopHeartbeat.wiring.Sound opts := hstop ▸ h.sound.unbeat
    have hbare := discardSocket_bare hsound ((congrArg Wiring.timeouts hstop).trans htimeouts) (congrArg Wiring.intervals hstop)
    have hrun' : w.stopHeartbeat.discardSocket.client.stopped = false :=
      discardSocket_stopped.trans ((congrArg Wiring.stopped hstop).trans hrun)
    have hrests' : w.stopHeartbeat.discardSocket.rests = [] := discardSocket_rests.trans ((congrArg Wiring.rests hstop).trans hrests)
    have hnext : w.stopHeartbeat.discardSocket.nextSocket = w.nextSocket :=
      discardSocket_next.trans (congrArg Wiring.nextSocket hstop)
    have hscopes : Scoped w.stopHeartbeat.discardSocket := h.scopes.of_dead hbare.toDead (by simp) hnext
    refine scheduleReconnect_inv { hbare with socket := rfl } (fun id hid => ?_) hrun' hrests' hscopes
    rw [show w.stopHeartbeat.discardSocket.intervals = [] from hbare.intervals] at hid
    cases hid
  · rwa [send_ping]

theorem message_inv {frame : Option WsFrame} (h : Inv opts w) : Inv opts (w.handle i (World.onmessage opts now frame)) := by
  unfold World.handle
  split
  · constructor
    · rw [onmessage_wiring]
      exact h.sound
    · have hwiring : (w.onmessage opts now frame).wiring = w.wiring := onmessage_wiring
      have hsockets : (w.onmessage opts now frame).sockets = w.sockets := congrArg Wiring.sockets hwiring
      refine h.scopes.shrink onmessage_books (congrArg Wiring.nextSocket hwiring) (fun j s hs _ => hsockets ▸ hs) fun j hj => ?_
      rwa [show (w.onmessage opts now frame).rests = w.rests from congrArg Wiring.rests hwiring]
  · exact h

/-! ## Runs -/

/-- Every careful action keeps the invariant. -/
theorem step_inv (h : Inv opts w) (hcareful : Careful opts w a) (hstep : step opts now w a = some w') : Inv opts w' := by
  cases a with
  | connect =>
    cases hstep
    exact connect_inv h
  | close =>
    cases hstep
    exact close_inv h hcareful
  | reconnect =>
    cases hstep
    exact reconnect_inv h hcareful
  | subscribe k =>
    cases hstep
    refine ⟨?_, subscribe_scoped h.sound h.scopes⟩
    rw [subscribe_wiring]
    exact h.sound
  | dispose t =>
    obtain ⟨⟨k, used⟩, ht, rfl⟩ := Option.map_eq_some_iff.1 hstep
    refine ⟨?_, dispose_scoped h.sound h.scopes ht fun hused => hcareful k (hused ▸ ht)⟩
    rw [dispose_wiring]
    exact h.sound
  | told =>
    unfold step at hstep
    cases hrests : w.rests with
    | nil =>
      rw [hrests] at hstep
      cases hstep
    | cons r rests =>
      rw [hrests] at hstep
      cases hstep
      have hpush : World.push r { w with rests := rests } = w := by
        rw [World.push, ← hrests]
      exact finish_inv (hpush ▸ h)
  | opened i =>
    simp only [step] at hstep
    split at hstep
    · rename_i hguard
      cases hstep
      obtain ⟨s, hi, hs⟩ := Option.map_eq_some_iff.1 hguard.2
      exact opened_inv h hguard.1 hi hs
    · cases hstep
  | message i frame =>
    simp only [step] at hstep
    split at hstep
    · cases hstep
      exact message_inv h
    · cases hstep
  | error i =>
    simp only [step] at hstep
    split at hstep
    · cases hstep
      exact h
    · cases hstep
  | closing i =>
    simp only [step] at hstep
    split at hstep
    · cases hstep
      exact modifySocket_inv h not_live_close close_attached
    · cases hstep
  | closed i =>
    simp only [step] at hstep
    split at hstep
    · rename_i hguard
      cases hstep
      obtain ⟨s, hi, -⟩ := (Option.any_eq_true _ _).1 hguard.2
      exact closed_inv h hguard.1 hi hcareful
    · cases hstep
  | timeout id =>
    simp only [step] at hstep
    split at hstep
    · rename_i hguard
      cases hstep
      exact timeout_inv h hguard.2
    · cases hstep
  | tick id =>
    simp only [step] at hstep
    split at hstep
    · rename_i hguard
      cases hstep
      exact tick_inv h hguard.1 (List.ne_nil_of_mem hguard.2)
    · cases hstep

/-- What holds of the client at any time. -/
structure OneLive (opts : WsClientOptions) (w : World) : Prop where
  /-- At most one socket is connecting or open with its handlers set. -/
  one : ∀ i j s t, w.sockets i = some s → w.sockets j = some t → s.live → t.live → i = j
  /-- None is once the client is stopped. -/
  stopped : w.client.stopped → ∀ i s, w.sockets i = some s → s.live = false
  /-- What is open carries the scopes with references, once its listeners have been told. -/
  scopes : ∀ i s, w.sockets i = some s → s.live → s.readyState = .open → .opened i ∉ w.rests →
    ∀ k, k ∈ w.subscribed i ↔ 0 < w.refs k
  /-- Of the events that were dispatched last, none was dispatched twice. -/
  frames : (w.dispatchedIds.take opts.dedupeLimit).Nodup

theorem start_inv : Inv opts {} where
  sound :=
    { known := fun i s hs => by cases hs
      held := fun i s hs => by cases hs
      own := fun i hi => by cases hi
      stopped := fun _ => rfl
      timeouts := fun id hid => by cases hid
      waiting := fun hne => absurd rfl hne
      intervals := fun id hid => by cases hid
      beating := fun hne => absurd rfl hne
      pending := .idle }
  scopes :=
    { refs := fun k => rfl
      pos := fun k hk => absurd hk (AList.notMem_empty k)
      fresh := fun i _ => rfl
      connecting := fun i s hs => by cases hs
      only := fun i s hs => by cases hs
      all := fun i s hs => by cases hs }

theorem start_windowed : Windowed opts {} where
  order := by simp [World.dispatchedIds]
  ids id := by simp
  nodup := List.nodup_nil

/-- Whatever is called and whatever comes, one socket is live at a time and carries the scopes, as long as the actions are careful. -/
theorem one_live_socket (h : Reaches opts (Careful opts) w) : OneLive opts w := by
  have hinv : Inv opts w ∧ Windowed opts w := by
    induction h with
    | start => exact ⟨start_inv, start_windowed⟩
    | step _ hcareful hstep ih => exact ⟨step_inv ih.1 hcareful hstep, step_windowed ih.2 hstep⟩
  obtain ⟨hinv, hframes⟩ := hinv
  constructor
  · intro i j s t hs ht hslive htlive
    exact Option.some.inj ((hinv.sound.held i s hs hslive).symm.trans (hinv.sound.held j t ht htlive))
  · intro hstopped
    exact (hinv.sound.bare (hinv.sound.stopped hstopped) (hinv.sound.no_timeouts (.inr (.inr hstopped)))).dead
  · intro i s hs hlive hopen hmem k
    exact ⟨hinv.scopes.only i s hs hlive hopen k, hinv.scopes.all i s hs hlive hopen hmem k⟩
  · rw [← List.nodup_reverse, ← hframes.order]
    exact hframes.nodup

/-- A client that opens its first socket, and is closed. -/
theorem one_live_socket_closed : ∃ w, OneLive {} w ∧ w.client.stopped ∧ w.sockets 0 = some ⟨.closing, true⟩ := by
  have hstart : Reaches {} (Careful {}) {} := .start
  have hconnect := hstart.step (a := .connect) trivial (show step {} 0 _ _ = some _ from rfl)
  have hcreated := hconnect.step (a := .told) trivial (show step {} 0 _ _ = some _ from rfl)
  have hopen := hcreated.step (a := .opened 0) trivial (show step {} 0 _ _ = some _ from rfl)
  have htold := hopen.step (a := .told) trivial (show step {} 0 _ _ = some _ from rfl)
  have hclose := htold.step (a := .close) (fun r hr => by cases hr) (show step {} 0 _ _ = some _ from rfl)
  exact ⟨_, one_live_socket hclose, rfl, rfl⟩

/-! ### Going on -/

/-- A client that runs holds a socket or waits for a reconnection, or is about to, and what it holds has not been closed. -/
structure Going (x : Wiring) : Prop where
  ahead : x.stopped ∨ x.socket ≠ none ∨ x.timeouts ≠ [] ∨ .create ∈ x.rests ∨ .retry ∈ x.rests
  unclosed : ∀ i s, x.socket = some i → x.sockets i = some s → s.readyState ≠ .closed

theorem Going.push (h : Going w.wiring) : Going (w.push r).wiring where
  ahead := h.ahead.imp_right (Or.imp_right (Or.imp_right (Or.imp (List.mem_cons_of_mem r) (List.mem_cons_of_mem r))))
  unclosed := h.unclosed

theorem Going.stopHeartbeat (h : Going w.wiring) : Going w.stopHeartbeat.wiring := by
  unfold World.stopHeartbeat
  split
  · exact ⟨h.ahead, h.unclosed⟩
  · exact h

theorem Going.modifySocket {f : WebSocket → WebSocket} (h : Going w.wiring)
    (hf : ∀ s, w.client.socket = some i → w.sockets i = some s → (f s).readyState ≠ .closed) : Going (w.modifySocket i f).wiring where
  ahead := h.ahead
  unclosed j s hj hs := by
    rcases modifySocket_sockets hs with ⟨rfl, t, ht, rfl⟩ | ⟨-, hold⟩
    · exact hf t hj ht
    · exact h.unclosed j s hj hold

/-- The rest of a call does what it was about to do. -/
theorem finish_going (h : Going (w.push r).wiring) : Going (w.finish opts now r).wiring := by
  cases r with
  | create =>
    refine ⟨.inr (.inl (Option.some_ne_none _)), fun i s hi hs => ?_⟩
    cases hi
    cases (Function.update_self w.nextSocket _ w.sockets).symm.trans hs
    exact ReadyState.noConfusion
  | opened i =>
    have hw : Going w.wiring := ⟨by simpa [World.push, World.wiring] using h.ahead, h.unclosed⟩
    change Going (w.startHeartbeat opts now).resubscribe.wiring
    rw [resubscribe_wiring]
    unfold World.startHeartbeat
    dsimp only
    split
    · exact hw.stopHeartbeat
    · exact ⟨hw.stopHeartbeat.ahead, hw.stopHeartbeat.unclosed⟩
  | retry => exact ⟨.inr (.inr (.inl (List.cons_ne_nil _ _))), h.unclosed⟩

theorem setStatus_going {status : WsStatus} (h : Going (w.push r).wiring) : Going (w.setStatus opts now status r).wiring := by
  unfold World.setStatus
  split
  · exact finish_going h
  · exact ⟨h.ahead, h.unclosed⟩

theorem openSocket_going {status : WsStatus}
    (h : ∀ i s, w.client.socket = some i → w.sockets i = some s → s.readyState ≠ .closed) : Going (w.openSocket opts now status).wiring :=
  setStatus_going ⟨.inr (.inr (.inr (.inl List.mem_cons_self))), h⟩

theorem scheduleReconnect_going : Going (w.scheduleReconnect opts now).wiring := by
  refine setStatus_going ⟨.inr (.inr (.inr (.inr List.mem_cons_self))), fun i s hi => ?_⟩
  unfold World.stopHeartbeat at hi
  split at hi <;> cases hi

theorem closed_going (h : Going w.wiring) (hsound : w.wiring.Sound opts) :
    Going ((w.modifySocket i fun s => { s with readyState := .closed }).handle i (World.onclose opts now)).wiring := by
  unfold World.handle World.onclose
  split
  · split
    · rename_i hstopped
      have hnone : w.client.socket = none := hsound.stopped hstopped
      refine h.modifySocket fun s hi => ?_
      cases hnone.symm.trans hi
    · exact scheduleReconnect_going
  · rename_i hdetached
    refine h.modifySocket fun s hi => ?_
    obtain ⟨t, ht, hattached⟩ := hsound.own i hi
    rw [modifySocket_self ht] at hdetached
    exact absurd hattached hdetached

/-- Every action leaves a client that goes on. -/
theorem step_going (h : Going w.wiring) (hsound : w.wiring.Sound opts) (hstep : step opts now w a = some w') : Going w'.wiring := by
  cases a with
  | connect =>
    cases hstep
    unfold World.connect
    split
    · exact h
    · exact openSocket_going h.unclosed
  | close =>
    cases hstep
    rw [close_wiring]
    exact ⟨.inl rfl, fun i s hi => by cases hi⟩
  | reconnect =>
    cases hstep
    unfold World.reconnect
    split
    · exact h
    · refine openSocket_going fun i s hi => ?_
      unfold World.discardSocket at hi
      split at hi
      · cases hi
      · rename_i hnone
        cases hnone.symm.trans hi
  | subscribe k =>
    cases hstep
    rwa [subscribe_wiring]
  | dispose t =>
    obtain ⟨⟨k, used⟩, -, rfl⟩ := Option.map_eq_some_iff.1 hstep
    rwa [dispose_wiring]
  | told =>
    simp only [step] at hstep
    split at hstep
    · rename_i r rests hrests
      cases hstep
      have hpush : World.push r { w with rests := rests } = w := by
        rw [World.push, ← hrests]
      exact finish_going (hpush ▸ h)
    · cases hstep
  | opened i =>
    obtain ⟨hguard, hstep⟩ := Option.ite_none_right_eq_some.1 hstep
    cases hstep
    have hopen := h.modifySocket (i := i) (f := fun s => { s with readyState := .open }) fun s _ _ => ReadyState.noConfusion
    unfold World.handle
    split
    · exact setStatus_going hopen.push
    · exact hopen
  | message i frame =>
    obtain ⟨hguard, hstep⟩ := Option.ite_none_right_eq_some.1 hstep
    cases hstep
    unfold World.handle
    split
    · rwa [onmessage_wiring]
    · exact h
  | error i =>
    obtain ⟨hguard, hstep⟩ := Option.ite_none_right_eq_some.1 hstep
    cases hstep
    exact h
  | closing i =>
    obtain ⟨hguard, hstep⟩ := Option.ite_none_right_eq_some.1 hstep
    cases hstep
    refine h.modifySocket fun s _ hs => ?_
    have hopen : s.readyState = .open := by simpa [hs] using hguard.2
    simp [WebSocket.close, hopen]
  | closed i =>
    obtain ⟨hguard, hstep⟩ := Option.ite_none_right_eq_some.1 hstep
    cases hstep
    exact closed_going h hsound
  | timeout id =>
    obtain ⟨hguard, hstep⟩ := Option.ite_none_right_eq_some.1 hstep
    cases hstep
    unfold World.onTimeout
    dsimp only
    split
    · exact openSocket_going h.unclosed
    · rename_i hstopped
      have hstopped : w.client.stopped = true := by simpa using hstopped
      exact ⟨.inl hstopped, h.unclosed⟩
  | tick id =>
    obtain ⟨hguard, hstep⟩ := Option.ite_none_right_eq_some.1 hstep
    cases hstep
    unfold World.onTick
    split
    · exact scheduleReconnect_going
    · rwa [send_ping]

/-- What is to come for a client that is in no listener. -/
structure Attended (w : World) : Prop where
  /-- A close event that it hears, or a reconnection. -/
  running : w.client.stopped = false → w.rests = [] →
    (∃ i s, w.client.socket = some i ∧ w.sockets i = some s ∧ s.attached ∧ s.readyState ≠ .closed) ∨
      ∃ id ∈ w.timeouts, w.client.reconnectTimer = some id
  /-- Nothing, once it is stopped. -/
  stopped : w.client.stopped → w.client.socket = none ∧ w.timeouts = [] ∧ w.intervals = []

/-- The world after the actions, where each of them is possible. -/
def play (opts : WsClientOptions) : List Action → World → Option World
  | [], w => some w
  | a :: actions, w => (step opts 0 w a).bind (play opts actions)

theorem reaches_play {ok : World → Action → Prop} (hok : ∀ w a, ok w a) {actions : List Action} (hw : Reaches opts ok w)
    (h : play opts actions w = some w') : Reaches opts ok w' := by
  induction actions generalizing w with
  | nil =>
    cases h
    exact hw
  | cons a actions ih =>
    obtain ⟨v, hv, hrest⟩ := Option.bind_eq_some_iff.1 h
    exact ih (hw.step (hok w a) hv) hrest

/-- The close event of the first socket comes after the client has connected again. -/
def staleClose : List Action :=
  [.connect, .told, .opened 0, .told, .close, .connect, .told, .closed 0, .told, .timeout 0]

/-- Two subscribe to a scope, and one calls its disposer twice. -/
def disposedTwice (k : Scope) : List Action :=
  [.connect, .told, .opened 0, .told, .subscribe k, .subscribe k, .dispose 0, .dispose 0]

/-- After a stale close event two sockets are live, and a disposer that is called twice takes the scope from the other subscriber. -/
theorem two_live_sockets :
    (∃ w, Reaches {} (fun _ _ => True) w ∧ w.sockets 1 = some ⟨.connecting, true⟩ ∧ w.sockets 2 = some ⟨.connecting, true⟩) ∧
      ∃ w, Reaches {} (fun _ _ => True) w ∧ w.sockets 0 = some ⟨.open, true⟩ ∧ w.rests = [] ∧
        w.refs ⟨.chat, "c"⟩ = 1 ∧ w.subscribed 0 = ∅ := by
  constructor
  · have hplay : ∃ w, play {} staleClose {} = some w ∧ w.sockets 1 = some ⟨.connecting, true⟩ ∧
        w.sockets 2 = some ⟨.connecting, true⟩ := ⟨_, rfl, rfl, rfl⟩
    obtain ⟨w, hw, hlive⟩ := hplay
    exact ⟨w, reaches_play (fun _ _ => trivial) .start hw, hlive⟩
  · have hplay : ∃ w, play {} (disposedTwice ⟨.chat, "c"⟩) {} = some w ∧ w.sockets 0 = some ⟨.open, true⟩ ∧ w.rests = [] ∧
        w.refs ⟨.chat, "c"⟩ = 1 ∧ w.subscribed 0 = ∅ := ⟨_, rfl, rfl, rfl, rfl, rfl⟩
    obtain ⟨w, hw, hopen⟩ := hplay
    exact ⟨w, reaches_play (fun _ _ => trivial) .start hw, hopen⟩

end Ploykit.Client

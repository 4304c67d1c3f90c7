import Ploykit.Client.WsClient

/-!
# The connection

The sockets, the timers and the calls that are in a listener, apart from what the client
remembers. The connection is sound where at most the socket that the client holds is live.
-/

namespace Ploykit.Client

variable {opts : WsClientOptions} {now : Int} {w : World} {i j : Nat} {s : WebSocket} {k : Scope} {r : Rest}

/-! ## Sockets -/

theorem not_live_close (s : WebSocket) : s.close.live = false := by
  rcases s with ⟨_ | _ | _ | _, _ | _⟩ <;> rfl

theorem close_attached (s : WebSocket) : s.close.attached = s.attached := by
  rcases s with ⟨_ | _ | _ | _, _⟩ <;> rfl

theorem not_live_closed (s : WebSocket) : ({ s with readyState := .closed } : WebSocket).live = false := by
  rcases s with ⟨_, _ | _⟩ <;> rfl

theorem modifySocket_sockets {f : WebSocket → WebSocket} (h : (w.modifySocket i f).sockets j = some s) :
    (j = i ∧ ∃ t, w.sockets i = some t ∧ s = f t) ∨ (j ≠ i ∧ w.sockets j = some s) := by
  change Function.update w.sockets i ((w.sockets i).map f) j = some s at h
  cases hij : decide (j = i) with
  | true =>
    cases of_decide_eq_true hij
    rw [Function.update_self, Option.map_eq_some_iff] at h
    obtain ⟨t, ht, hs⟩ := h
    exact .inl ⟨rfl, t, ht, hs.symm⟩
  | false =>
    have hne : j ≠ i := of_decide_eq_false hij
    rw [Function.update_of_ne hne] at h
    exact .inr ⟨hne, h⟩

theorem modifySocket_self {f : WebSocket → WebSocket} (hi : w.sockets i = some s) : (w.modifySocket i f).sockets i = some (f s) := by
  change Function.update w.sockets i ((w.sockets i).map f) i = some (f s)
  rw [Function.update_self, hi]
  rfl

/-! ## The connection -/

/-- What the connection of the client is made of. -/
structure Wiring where
  sockets : Nat → Option WebSocket
  nextSocket : Nat
  socket : Option Nat
  stopped : Bool
  reconnectTimer : Option Nat
  heartbeatTimer : Option Nat
  timeouts : List Nat
  intervals : List Nat
  rests : List Rest

def World.wiring (w : World) : Wiring where
  sockets := w.sockets
  nextSocket := w.nextSocket
  socket := w.client.socket
  stopped := w.client.stopped
  reconnectTimer := w.client.reconnectTimer
  heartbeatTimer := w.client.heartbeatTimer
  timeouts := w.timeouts
  intervals := w.intervals
  rests := w.rests

namespace Wiring

/-- The calls that may be in a listener, given whether a socket is held. -/
inductive Pending (opts : WsClientOptions) (held running : Bool) : List Rest → Prop
  | idle : Pending opts held running []
  | opened (i : Nat) (h : held ∨ opts.heartbeatMs ≤ 0) : Pending opts held running [.opened i]
  | create (hheld : held = false) (hrun : running) : Pending opts held running [.create]
  | createOpened (i : Nat) (hheld : held = false) (hrun : running) : Pending opts held running [.create, .opened i]
  | retry (hheld : held = false) (hrun : running) : Pending opts held running [.retry]

section pending

variable {held running : Bool} {rests : List Rest}

/-- Under what is to be created there is at most the `onopen` of an old socket. -/
theorem Pending.of_create (h : Pending opts held running (.create :: rests)) :
    held = false ∧ running ∧ Pending opts true running rests := by
  cases h with
  | create hheld hrun => exact ⟨hheld, hrun, .idle⟩
  | createOpened i hheld hrun => exact ⟨hheld, hrun, .opened i (.inl rfl)⟩

theorem Pending.of_opened (h : Pending opts held running (.opened i :: rests)) : rests = [] ∧ (held ∨ opts.heartbeatMs ≤ 0) := by
  cases h with
  | opened _ h => exact ⟨rfl, h⟩

theorem Pending.of_retry (h : Pending opts held running (.retry :: rests)) : rests = [] ∧ held = false ∧ running := by
  cases h with
  | retry hheld hrun => exact ⟨rfl, hheld, hrun⟩

/-- Only the `onopen` of a socket can be in a listener of a client that is stopped. -/
theorem Pending.of_stopped (h : Pending opts held false rests) :
    Pending opts held true rests ∧ ∀ r, rests.head? = some r → ∃ i, r = .opened i := by
  cases h with
  | idle =>
    refine ⟨.idle, fun r hr => ?_⟩
    cases hr
  | opened i hheld =>
    refine ⟨.opened i hheld, fun r hr => ?_⟩
    cases hr
    exact ⟨i, rfl⟩
  | create _ hrun => cases hrun
  | createOpened _ _ hrun => cases hrun
  | retry _ hrun => cases hrun

/-- A socket may be created where no other is to be. -/
theorem Pending.create_cons {held' : Bool} (h : Pending opts held' running rests)
    (hhead : ∀ r, rests.head? = some r → ∃ i, r = .opened i) (hrun : running) : Pending opts false running (.create :: rests) := by
  cases h with
  | idle => exact .create rfl hrun
  | opened i _ => exact .createOpened i rfl hrun
  | create _ _ =>
    obtain ⟨_, hopened⟩ := hhead _ rfl
    cases hopened
  | createOpened _ _ _ =>
    obtain ⟨_, hopened⟩ := hhead _ rfl
    cases hopened
  | retry _ _ =>
    obtain ⟨_, hopened⟩ := hhead _ rfl
    cases hopened

/-- A client may stop where nothing is to be created. -/
theorem Pending.stop (h : Pending opts held running rests)
    (hhead : ∀ r, rests.head? = some r → ∃ i, r = .opened i ∧ opts.heartbeatMs ≤ 0) : Pending opts false false rests := by
  cases h with
  | idle => exact .idle
  | opened i _ =>
    obtain ⟨_, _, hbeat⟩ := hhead _ rfl
    exact .opened i (.inr hbeat)
  | create _ _ =>
    obtain ⟨_, hopened, _⟩ := hhead _ rfl
    cases hopened
  | createOpened _ _ _ =>
    obtain ⟨_, hopened, _⟩ := hhead _ rfl
    cases hopened
  | retry _ _ =>
    obtain ⟨_, hopened, _⟩ := hhead _ rfl
    cases hopened

end pending

/-- Nothing is live, and no reconnect timer is set. -/
structure Dead (x : Wiring) : Prop where
  known : ∀ i s, x.sockets i = some s → i < x.nextSocket
  dead : ∀ i s, x.sockets i = some s → s.live = false
  socket : x.socket = none
  timeouts : x.timeouts = []

/-- The heart does not beat either. -/
structure Bare (x : Wiring) : Prop extends x.Dead where
  intervals : x.intervals = []

structure Sound (opts : WsClientOptions) (x : Wiring) : Prop where
  known : ∀ i s, x.sockets i = some s → i < x.nextSocket
  /-- What is live is held. -/
  held : ∀ i s, x.sockets i = some s → s.live → x.socket = some i
  own : ∀ i, x.socket = some i → ∃ s, x.sockets i = some s ∧ s.attached
  stopped : x.stopped → x.socket = none
  timeouts : ∀ id ∈ x.timeouts, x.reconnectTimer = some id
  /-- While the reconnect timer is set there is nothing else. -/
  waiting : x.timeouts ≠ [] → x.socket = none ∧ x.rests = [] ∧ x.stopped = false
  intervals : ∀ id ∈ x.intervals, x.heartbeatTimer = some id
  beating : x.intervals ≠ [] → x.socket.isSome
  pending : Pending opts x.socket.isSome (!x.stopped) x.rests

variable {x : Wiring}

/-- A bare connection is sound once what is to be created is pending, or nothing is. -/
theorem Bare.sound (h : x.Bare) (hpending : Pending opts false (!x.stopped) x.rests) : x.Sound opts where
  known := h.known
  held i s hs hlive := absurd hlive (by simp [h.dead i s hs])
  own i hi := by
    rw [h.socket] at hi
    cases hi
  stopped _ := h.socket
  timeouts id hid := by
    rw [h.timeouts] at hid
    cases hid
  waiting hne := absurd h.timeouts hne
  intervals id hid := by
    rw [h.intervals] at hid
    cases hid
  beating hne := absurd h.intervals hne
  pending := by
    rw [h.socket]
    exact hpending

theorem Sound.no_timeouts (h : x.Sound opts) (hx : x.socket ≠ none ∨ x.rests ≠ [] ∨ x.stopped) : x.timeouts = [] := by
  cases ht : x.timeouts with
  | nil => rfl
  | cons id ids =>
    obtain ⟨hsocket, hrests, hstopped⟩ := h.waiting (by simp [ht])
    rcases hx with hx | hx | hx
    · exact absurd hsocket hx
    · exact absurd hrests hx
    · exact absurd hx (by simp [hstopped])

theorem Sound.no_intervals (h : x.Sound opts) (hx : x.socket = none) : x.intervals = [] := by
  cases hi : x.intervals with
  | nil => rfl
  | cons id ids => exact absurd (h.beating (by simp [hi])) (by simp [hx])

/-- Without a socket and a timer the connection is bare. -/
theorem Sound.bare (h : x.Sound opts) (hsocket : x.socket = none) (htimeouts : x.timeouts = []) : x.Bare where
  known := h.known
  dead i s hs := by
    cases hlive : s.live with
    | false => rfl
    | true => exact absurd (h.held i s hs hlive) (by simp [hsocket])
  socket := hsocket
  timeouts := htimeouts
  intervals := h.no_intervals hsocket

/-! ### Timers -/

theorem Sound.unbeat (h : x.Sound opts) : ({ x with heartbeatTimer := none, intervals := [] } : Wiring).Sound opts :=
  { h with
    intervals := fun _ hid => absurd hid List.not_mem_nil
    beating := fun hne => absurd rfl hne }

theorem Sound.unwait (h : x.Sound opts) : ({ x with reconnectTimer := none, timeouts := [] } : Wiring).Sound opts :=
  { h with
    timeouts := fun _ hid => absurd hid List.not_mem_nil
    waiting := fun hne => absurd rfl hne }

theorem Sound.beat {id : Nat} (h : x.Sound opts) (hheld : x.socket.isSome) :
    ({ x with heartbeatTimer := some id, intervals := [id] } : Wiring).Sound opts :=
  { h with
    intervals := fun id' hid => by rw [List.mem_singleton.1 hid]
    beating := fun _ => hheld }

end Wiring

open Wiring

/-- No timer is left of those of which the last is cleared. -/
theorem filter_ne_eq_nil {l : List Nat} {id : Nat} (h : ∀ x ∈ l, some id = some x) : l.filter (· ≠ id) = [] :=
  List.filter_eq_nil_iff.2 fun x hx => by
    cases h x hx
    simp

theorem stopHeartbeat_wiring (hintervals : ∀ id ∈ w.intervals, w.client.heartbeatTimer = some id) :
    w.stopHeartbeat.wiring = { w.wiring with heartbeatTimer := none, intervals := [] } := by
  unfold World.stopHeartbeat
  cases hid : w.client.heartbeatTimer with
  | none =>
    have hnil : w.intervals = [] := List.eq_nil_iff_forall_not_mem.2 fun id hmem => by
      have := hintervals id hmem
      rw [hid] at this
      cases this
    simp only [World.wiring, hid, hnil]
  | some id =>
    have hnil : w.intervals.filter (· ≠ id) = [] := filter_ne_eq_nil fun x hx => hid ▸ hintervals x hx
    simp only [World.wiring, hnil]

theorem clearReconnect_wiring (h : w.wiring.Sound opts) :
    w.clearReconnect.wiring = { w.wiring with reconnectTimer := none, timeouts := [] } := by
  have htimeouts : ∀ id ∈ w.timeouts, w.client.reconnectTimer = some id := h.timeouts
  unfold World.clearReconnect
  cases hid : w.client.reconnectTimer with
  | none =>
    have hnil : w.timeouts = [] := List.eq_nil_iff_forall_not_mem.2 fun id hmem => by
      have := htimeouts id hmem
      rw [hid] at this
      cases this
    simp only [World.wiring, hid, hnil]
  | some id =>
    have hnil : w.timeouts.filter (· ≠ id) = [] := filter_ne_eq_nil fun x hx => hid ▸ htimeouts x hx
    simp only [World.wiring, hnil]

theorem discardSocket_rests : w.discardSocket.rests = w.rests := by
  unfold World.discardSocket
  split <;> rfl

theorem discardSocket_stopped : w.discardSocket.client.stopped = w.client.stopped := by
  unfold World.discardSocket
  split <;> rfl

theorem closeSocket_rests : w.closeSocket.rests = w.rests := by
  unfold World.closeSocket
  split <;> rfl

theorem discardSocket_next : w.discardSocket.nextSocket = w.nextSocket := by
  unfold World.discardSocket
  split <;> rfl

theorem closeSocket_next : w.closeSocket.nextSocket = w.nextSocket := by
  unfold World.closeSocket
  split <;> rfl

theorem send_wiring {c : Control} : (w.send c).wiring = w.wiring := by
  unfold World.send
  split <;> rfl

theorem resubscribe_wiring : w.resubscribe.wiring = w.wiring := by
  unfold World.resubscribe
  generalize w.client.scopeRefs.keys = keys
  induction keys generalizing w with
  | nil => rfl
  | cons k keys ih => rw [List.foldl_cons, ih, send_wiring]

theorem subscribe_wiring : (w.subscribe k).wiring = w.wiring := by
  unfold World.subscribe
  dsimp only
  split
  · rw [send_wiring]
    rfl
  · rfl

theorem dispose_wiring {t : Nat} : (w.dispose t k).wiring = w.wiring := by
  unfold World.dispose
  dsimp only
  split
  · rw [send_wiring]
    rfl
  · rfl

theorem dispatch_wiring {frame : WsFrame} : (w.dispatch opts frame).wiring = w.wiring := by
  unfold World.dispatch
  split
  · rfl
  · split
    · rfl
    · unfold World.deliver World.remember
      dsimp only
      split
      · split <;> rfl
      · rfl

theorem onmessage_wiring {frame : Option WsFrame} : (w.onmessage opts now frame).wiring = w.wiring := by
  cases frame with
  | none => rfl
  | some frame => exact dispatch_wiring

/-! ### Calls and their rests -/

/-- What is held is made dead and let go. -/
theorem dead_modify {f : WebSocket → WebSocket} (hf : ∀ s, (f s).live = false) (h : w.wiring.Sound opts)
    (hi : w.client.socket = some i) : ((w.setSocket none).modifySocket i f).wiring.Dead where
  known j s hs := by
    cases modifySocket_sockets hs with
    | inl hself =>
      obtain ⟨rfl, t, ht, -⟩ := hself
      exact h.known j t ht
    | inr hother => exact h.known j s hother.2
  dead j s hs := by
    cases modifySocket_sockets hs with
    | inl hself =>
      obtain ⟨-, t, -, rfl⟩ := hself
      exact hf t
    | inr hother =>
      obtain ⟨hne, hj⟩ := hother
      cases hlive : s.live with
      | false => rfl
      | true => exact absurd (Option.some.inj (hi.symm.trans (h.held j s hj hlive))) (Ne.symm hne)
  socket := rfl
  timeouts := h.no_timeouts (.inl (by rw [show w.wiring.socket = some i from hi]; exact Option.some_ne_none i))

theorem discardSocket_bare (h : w.wiring.Sound opts) (htimeouts : w.timeouts = []) (hintervals : w.intervals = []) :
    w.discardSocket.wiring.Bare := by
  unfold World.discardSocket
  cases hi : w.client.socket with
  | none => exact h.bare hi htimeouts
  | some i => exact { dead_modify (fun s => not_live_close s.detach) h hi with intervals := hintervals }

theorem closeSocket_bare (h : w.wiring.Sound opts) (htimeouts : w.timeouts = []) (hintervals : w.intervals = []) :
    (w.closeSocket.setSocket none).wiring.Bare := by
  unfold World.closeSocket
  cases hi : w.client.socket with
  | none =>
    have hbare := h.bare hi htimeouts
    exact { hbare with socket := rfl }
  | some i => exact { dead_modify not_live_close h hi with intervals := hintervals }

/-- The rest of a call keeps the connection sound. -/
theorem finish_sound (h : (w.push r).wiring.Sound opts) : (w.finish opts now r).wiring.Sound opts := by
  have htimeouts : w.timeouts = [] := h.no_timeouts (.inr (.inl (List.cons_ne_nil r w.rests)))
  have hpending : Pending opts w.client.socket.isSome (!w.client.stopped) (r :: w.rests) := h.pending
  cases r with
  | create =>
    obtain ⟨hheld, hrun, hbelow⟩ := hpending.of_create
    have hnone : w.client.socket = none := by simpa using hheld
    have hsockets : ∀ {j s}, Function.update w.sockets w.nextSocket (some {}) j = some s →
        j = w.nextSocket ∨ w.sockets j = some s := by
      intro j s hs
      cases hj : decide (j = w.nextSocket) with
      | true => exact .inl (of_decide_eq_true hj)
      | false =>
        rw [Function.update_of_ne (of_decide_eq_false hj)] at hs
        exact .inr hs
    exact
      { known := fun j s hs => by
          cases hsockets hs with
          | inl hnew => exact hnew ▸ Nat.lt_succ_self _
          | inr hold => exact Nat.lt_succ_of_lt (h.known j s hold)
        held := fun j s hs hlive => by
          cases hsockets hs with
          | inl hnew => exact hnew ▸ rfl
          | inr hold =>
            have hj : w.client.socket = some j := h.held j s hold hlive
            rw [hnone] at hj
            cases hj
        own := fun j hj => by
          cases hj
          exact ⟨{}, Function.update_self _ _ _, rfl⟩
        stopped := fun hstopped => absurd hstopped (by simpa [World.wiring, World.finish] using hrun)
        timeouts := h.timeouts
        waiting := fun hne => absurd htimeouts hne
        intervals := h.intervals
        beating := fun _ => rfl
        pending := hbelow }
  | opened i =>
    obtain ⟨hrests, hheld⟩ := hpending.of_opened
    have hrest : w.wiring.Sound opts :=
      { h with
        waiting := fun hne => absurd htimeouts hne
        pending := by
          rw [show w.wiring.rests = [] from hrests]
          exact .idle }
    have hstop : w.stopHeartbeat.wiring = { w.wiring with heartbeatTimer := none, intervals := [] } := stopHeartbeat_wiring hrest.intervals
    rw [World.finish, resubscribe_wiring, World.startHeartbeat]
    split
    · rw [hstop]
      exact hrest.unbeat
    · rename_i hbeat
      have hsound : w.stopHeartbeat.wiring.Sound opts := hstop ▸ hrest.unbeat
      have hsocket : w.stopHeartbeat.wiring.socket.isSome := by
        rw [hstop]
        exact hheld.resolve_right hbeat
      have hnil : w.stopHeartbeat.intervals = [] := congrArg Wiring.intervals hstop
      simp only [hnil]
      exact hsound.beat hsocket
  | retry =>
    obtain ⟨hrests, hheld, hrun⟩ := hpending.of_retry
    have hnone : w.client.socket = none := by simpa using hheld
    have hrun : w.client.stopped = false := by simpa using hrun
    exact
      { h with
        timeouts := fun id hid => by
          have hnew : id ∈ w.nextTimer :: w.timeouts := hid
          rw [htimeouts, List.mem_singleton] at hnew
          exact hnew ▸ rfl
        waiting := fun _ => ⟨hnone, hrests, hrun⟩
        pending := by
          change Pending opts _ _ w.rests
          rw [hrests]
          exact .idle }

/-- Telling the listeners does. -/
theorem setStatus_sound {status : WsStatus} (h : (w.push r).wiring.Sound opts) :
    (w.setStatus opts now status r).wiring.Sound opts := by
  unfold World.setStatus
  split
  · exact finish_sound h
  · exact h

/-- A socket may change where it does not come to life. -/
theorem modifySocket_sound {f : WebSocket → WebSocket} (h : w.wiring.Sound opts)
    (hlive : ∀ t, w.sockets i = some t → (f t).live → t.live) (hattached : ∀ t, (f t).attached = t.attached) :
    (w.modifySocket i f).wiring.Sound opts :=
  { h with
    known := fun j s hs => by
      cases modifySocket_sockets hs with
      | inl hself =>
        obtain ⟨rfl, t, ht, -⟩ := hself
        exact h.known _ t ht
      | inr hother => exact h.known j s hother.2
    held := fun j s hs hl => by
      cases modifySocket_sockets hs with
      | inl hself =>
        obtain ⟨rfl, t, ht, rfl⟩ := hself
        exact h.held _ t ht (hlive t ht hl)
      | inr hother => exact h.held j s hother.2 hl
    own := fun j hj => by
      obtain ⟨s, hs, hs'⟩ := h.own j hj
      change ∃ s', Function.update w.sockets i ((w.sockets i).map f) j = some s' ∧ s'.attached
      cases hij : decide (j = i) with
      | true =>
        cases of_decide_eq_true hij
        have hs : w.sockets i = some s := hs
        rw [Function.update_self, hs]
        exact ⟨f s, rfl, (hattached s).trans hs'⟩
      | false =>
        rw [Function.update_of_ne (of_decide_eq_false hij)]
        exact ⟨s, hs, hs'⟩ }

/-- The connection after the timers are cleared. -/
theorem cleared_wiring (h : w.wiring.Sound opts) : w.stopHeartbeat.clearReconnect.wiring =
    { w.wiring with heartbeatTimer := none, intervals := [], reconnectTimer := none, timeouts := [] } := by
  have hstop := stopHeartbeat_wiring h.intervals
  have hsound : w.stopHeartbeat.wiring.Sound opts := hstop ▸ h.unbeat
  rw [clearReconnect_wiring hsound, hstop]

theorem cleared_sound (h : w.wiring.Sound opts) : w.stopHeartbeat.clearReconnect.wiring.Sound opts :=
  cleared_wiring h ▸ h.unbeat.unwait

theorem close_wiring : w.close.wiring =
    { (w.stopHeartbeat.clearReconnect.closeSocket.setSocket none).wiring with stopped := true } := by
  unfold World.close World.stopHeartbeat World.clearReconnect World.closeSocket
  rcases w with ⟨⟨_ | _, _, _, _ | _, _, _, _, _ | _, _⟩⟩ <;> rfl

end Ploykit.Client

import Ploykit.Client.WsClient

/-!
# Frames

The client remembers the ids of the events that it has dispatched last, as many as `dedupeLimit`
says, and dispatches no frame with one of them.
-/

namespace Ploykit.Client

variable {opts : WsClientOptions} {now : Int} {w w' : World} {a : Action} {k : Scope} {r : Rest}

/-! ## The last ids -/

/-- The last elements once there is one more, the first that has come first. -/
theorem push_window {α : Type} (l : List α) (a : α) (limit : Nat) :
    (if ((l.take limit).reverse ++ [a]).length > limit then ((l.take limit).reverse ++ [a]).tail else (l.take limit).reverse ++ [a]) =
      ((a :: l).take limit).reverse := by
  have hlength : ((l.take limit).reverse ++ [a]).length = min limit l.length + 1 := by simp
  rw [hlength]
  cases limit with
  | zero => simp
  | succ n =>
    rw [List.take_succ_cons, List.reverse_cons]
    split
    · rename_i hfull
      have hn : n < l.length := by omega
      have hne : (l.take (n + 1)).reverse ≠ [] := by
        rw [Ne, List.reverse_eq_nil_iff]
        exact List.ne_nil_of_length_pos (by rw [List.length_take]; omega)
      have hdrop : (l.take (n + 1)).dropLast = l.take n := by
        rw [List.dropLast_eq_take, List.length_take, List.take_take]
        congr 1
        omega
      rw [List.tail_append_of_ne_nil hne, List.tail_reverse, hdrop]
    · rename_i hroom
      rw [List.take_of_length_le (by omega), List.take_of_length_le (by omega)]

/-! ## What the client remembers -/

/-- What is known of the frames. -/
structure Memory where
  seenIds : Finset String
  seenOrder : List String
  dispatched : List WsFrame

def World.memory (w : World) : Memory where
  seenIds := w.client.seenIds
  seenOrder := w.client.seenOrder
  dispatched := w.dispatched

/-- The ids of the events that were dispatched last are remembered, each once. -/
structure Windowed (opts : WsClientOptions) (w : World) : Prop where
  order : w.client.seenOrder = (w.dispatchedIds.take opts.dedupeLimit).reverse
  ids : ∀ id, id ∈ w.client.seenIds ↔ id ∈ w.client.seenOrder
  nodup : w.client.seenOrder.Nodup

theorem Windowed.of_memory (h : Windowed opts w) (hm : w'.memory = w.memory) : Windowed opts w' := by
  have hids : w'.client.seenIds = w.client.seenIds := congrArg Memory.seenIds hm
  have horder : w'.client.seenOrder = w.client.seenOrder := congrArg Memory.seenOrder hm
  have hframes : w'.dispatchedIds = w.dispatchedIds := by
    rw [World.dispatchedIds, show w'.dispatched = w.dispatched from congrArg Memory.dispatched hm]
    rfl
  constructor
  · rw [horder, hframes]
    exact h.order
  · rw [hids, horder]
    exact h.ids
  · rw [horder]
    exact h.nodup

theorem Windowed.nodup_concat {id : String} (h : Windowed opts w) (hnew : id ∉ w.client.seenOrder) :
    (w.client.seenOrder ++ [id]).Nodup :=
  List.nodup_append.2 ⟨h.nodup, List.nodup_singleton id, fun _ ha _ hb heq => hnew (List.mem_singleton.1 hb ▸ heq ▸ ha)⟩

theorem remember_seenOrder {id : String} : (w.remember opts id).client.seenOrder =
    if (w.client.seenOrder ++ [id]).length > opts.dedupeLimit then (w.client.seenOrder ++ [id]).tail else w.client.seenOrder ++ [id] := by
  unfold World.remember
  dsimp only
  split
  · cases w.client.seenOrder <;> rfl
  · rfl

theorem mem_remember {id x : String} (h : Windowed opts w) (hnew : id ∉ w.client.seenOrder) :
    x ∈ (w.remember opts id).client.seenIds ↔ x ∈ (w.remember opts id).client.seenOrder := by
  have hids : ∀ x, x ∈ insert id w.client.seenIds ↔ x ∈ w.client.seenOrder ++ [id] := fun x => by
    rw [Finset.mem_insert, h.ids, List.mem_append, List.mem_singleton, or_comm]
  have hnodup := h.nodup_concat hnew
  unfold World.remember
  dsimp only
  generalize w.client.seenOrder ++ [id] = order at hids hnodup
  split
  · cases order with
    | nil => exact hids x
    | cons evicted order =>
      rw [Finset.mem_erase, hids, List.mem_cons]
      constructor
      · exact fun hx => hx.2.resolve_left hx.1
      · exact fun hx => ⟨fun heq => (List.nodup_cons.1 hnodup).1 (heq ▸ hx), .inr hx⟩
  · exact hids x

theorem dispatch_windowed {frame : WsFrame} (h : Windowed opts w) : Windowed opts (w.dispatch opts frame) := by
  unfold World.dispatch
  split
  · rename_i hnone
    have hids : (w.deliver frame).dispatchedIds = w.dispatchedIds := by
      rw [World.dispatchedIds, World.deliver, List.map_cons, List.filter_cons_of_neg (by simp [hnone])]
      rfl
    exact ⟨hids ▸ h.order, h.ids, h.nodup⟩
  · rename_i hid
    split
    · exact h
    · rename_i hseen
      have hnew : frame.eventID ∉ w.client.seenOrder := fun hmem => hseen ((h.ids _).2 hmem)
      have hframes : (w.remember opts frame.eventID).dispatched = w.dispatched := by
        unfold World.remember
        dsimp only
        split
        · cases w.client.seenOrder <;> rfl
        · rfl
      have hids : ((w.remember opts frame.eventID).deliver frame).dispatchedIds = frame.eventID :: w.dispatchedIds := by
        rw [World.dispatchedIds, World.deliver, List.map_cons, List.filter_cons_of_pos (by simpa using hid), hframes]
        rfl
      have horder : (w.remember opts frame.eventID).client.seenOrder =
          ((frame.eventID :: w.dispatchedIds).take opts.dedupeLimit).reverse := by
        rw [remember_seenOrder, h.order, push_window]
      refine ⟨?_, fun x => mem_remember h hnew, ?_⟩
      · rw [hids]
        exact horder
      · change (w.remember opts frame.eventID).client.seenOrder.Nodup
        rw [remember_seenOrder]
        split
        · exact (h.nodup_concat hnew).tail
        · exact h.nodup_concat hnew

/-! ## Frames of the other actions -/

@[simp] theorem stopHeartbeat_memory : w.stopHeartbeat.memory = w.memory := by
  unfold World.stopHeartbeat
  split <;> rfl

@[simp] theorem clearReconnect_memory : w.clearReconnect.memory = w.memory := by
  unfold World.clearReconnect
  split <;> rfl

@[simp] theorem discardSocket_memory : w.discardSocket.memory = w.memory := by
  unfold World.discardSocket
  split <;> rfl

@[simp] theorem send_memory {c : Control} : (w.send c).memory = w.memory := by
  unfold World.send
  split <;> rfl

@[simp] theorem resubscribe_memory : w.resubscribe.memory = w.memory := by
  unfold World.resubscribe
  generalize w.client.scopeRefs.keys = keys
  induction keys generalizing w with
  | nil => rfl
  | cons k keys ih => rw [List.foldl_cons, ih, send_memory]

@[simp] theorem startHeartbeat_memory : (w.startHeartbeat opts now).memory = w.memory := by
  unfold World.startHeartbeat
  dsimp only
  split
  · exact stopHeartbeat_memory
  · exact stopHeartbeat_memory

@[simp] theorem finish_memory : (w.finish opts now r).memory = w.memory := by
  cases r with
  | create => rfl
  | opened i => rw [World.finish, resubscribe_memory, startHeartbeat_memory]
  | retry => rfl

@[simp] theorem setStatus_memory {status : WsStatus} : (w.setStatus opts now status r).memory = w.memory := by
  unfold World.setStatus
  split
  · exact finish_memory
  · rfl

@[simp] theorem scheduleReconnect_memory : (w.scheduleReconnect opts now).memory = w.memory := by
  rw [World.scheduleReconnect, setStatus_memory, stopHeartbeat_memory]
  rfl

theorem connect_memory : (w.connect opts now).memory = w.memory := by
  unfold World.connect
  split
  · rfl
  · exact setStatus_memory

theorem close_memory : w.close.memory = w.memory := by
  unfold World.close World.stopHeartbeat World.clearReconnect World.closeSocket
  rcases w with ⟨⟨_ | _, _, _, _ | _, _, _, _, _ | _, _⟩⟩ <;> rfl

theorem reconnect_memory : (w.reconnect opts now).memory = w.memory := by
  unfold World.reconnect
  split
  · rfl
  · rw [World.openSocket, setStatus_memory, discardSocket_memory, clearReconnect_memory, stopHeartbeat_memory]

theorem subscribe_memory : (w.subscribe k).memory = w.memory := by
  unfold World.subscribe
  dsimp only
  split
  · rw [send_memory]
    rfl
  · rfl

theorem dispose_memory {t : Nat} : (w.dispose t k).memory = w.memory := by
  unfold World.dispose
  dsimp only
  split
  · rw [send_memory]
    rfl
  · rfl

theorem handle_memory {i : Nat} {f : World → World} (hf : (f w).memory = w.memory) : (w.handle i f).memory = w.memory := by
  unfold World.handle
  split
  · exact hf
  · rfl

theorem onclose_memory : (w.onclose opts now).memory = w.memory := by
  unfold World.onclose
  split
  · rfl
  · exact scheduleReconnect_memory

theorem onTimeout_memory : (w.onTimeout opts now).memory = w.memory := by
  unfold World.onTimeout
  dsimp only
  split
  · exact setStatus_memory
  · rfl

theorem onTick_memory : (w.onTick opts now).memory = w.memory := by
  unfold World.onTick
  split
  · rw [scheduleReconnect_memory, discardSocket_memory, stopHeartbeat_memory]
  · exact send_memory

/-! ## Runs -/

theorem message_windowed {i : Nat} {frame : Option WsFrame} (h : Windowed opts w) :
    Windowed opts (w.handle i (World.onmessage opts now frame)) := by
  unfold World.handle
  split
  · have hactive : Windowed opts { w with client := { w.client with lastActivityAt := now } } := h.of_memory rfl
    cases frame with
    | none => exact hactive
    | some frame => exact dispatch_windowed hactive
  · exact h

theorem step_windowed (h : Windowed opts w) (hstep : step opts now w a = some w') : Windowed opts w' := by
  cases a with
  | connect =>
    cases hstep
    exact h.of_memory connect_memory
  | close =>
    cases hstep
    exact h.of_memory close_memory
  | reconnect =>
    cases hstep
    exact h.of_memory reconnect_memory
  | subscribe k =>
    cases hstep
    exact h.of_memory subscribe_memory
  | dispose t =>
    obtain ⟨s, -, rfl⟩ := Option.map_eq_some_iff.1 hstep
    exact h.of_memory dispose_memory
  | told =>
    simp only [step] at hstep
    split at hstep
    · cases hstep
      exact h.of_memory finish_memory
    · cases hstep
  | opened i =>
    simp only [step] at hstep
    split at hstep
    · cases hstep
      exact h.of_memory (handle_memory setStatus_memory)
    · cases hstep
  | message i frame =>
    simp only [step] at hstep
    split at hstep
    · cases hstep
      exact message_windowed h
    · cases hstep
  | error i =>
    simp only [step] at hstep
    split at hstep
    · cases hstep
      exact h
    · cases hstep
  | closing i =>
    simp only [step] at hstep
    split at hstep
    · cases hstep
      exact h.of_memory rfl
    · cases hstep
  | closed i =>
    simp only [step] at hstep
    split at hstep
    · cases hstep
      exact h.of_memory (handle_memory onclose_memory)
    · cases hstep
  | timeout id =>
    simp only [step] at hstep
    split at hstep
    · cases hstep
      exact h.of_memory onTimeout_memory
    · cases hstep
  | tick id =>
    simp only [step] at hstep
    split at hstep
    · cases hstep
      exact h.of_memory onTick_memory
    · cases hstep

end Ploykit.Client

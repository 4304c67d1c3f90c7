import Mathlib.Data.Finset.Lattice.Lemmas
import Ploykit.Client.Connection

/-!
# Scopes

The references of a scope are counted. A socket that opens is sent all the scopes with references,
and later what changes.
-/

namespace Ploykit.Client

variable {opts : WsClientOptions} {now : Int} {w w' : World} {i : Nat} {s : WebSocket} {k : Scope} {r : Rest}

open Wiring

/-! ## The books -/

/-- What is known of the scopes. -/
structure Books where
  scopeRefs : AList fun _ : Scope => Nat
  subscriptions : List (Scope × Bool)
  subscribed : Nat → Finset Scope

def World.books (w : World) : Books where
  scopeRefs := w.client.scopeRefs
  subscriptions := w.subscriptions
  subscribed := w.subscribed

@[simp] theorem stopHeartbeat_books : w.stopHeartbeat.books = w.books := by
  unfold World.stopHeartbeat
  split <;> rfl

@[simp] theorem clearReconnect_books : w.clearReconnect.books = w.books := by
  unfold World.clearReconnect
  split <;> rfl

@[simp] theorem discardSocket_books : w.discardSocket.books = w.books := by
  unfold World.discardSocket
  split <;> rfl

theorem startHeartbeat_books : (w.startHeartbeat opts now).books = w.books := by
  unfold World.startHeartbeat
  dsimp only
  split
  · exact stopHeartbeat_books
  · exact stopHeartbeat_books

theorem close_books : w.close.books = w.books := by
  unfold World.close World.stopHeartbeat World.clearReconnect World.closeSocket
  rcases w with ⟨⟨_ | _, _, _, _ | _, _, _, _, _ | _, _⟩⟩ <;> rfl

theorem onmessage_books {frame : Option WsFrame} : (w.onmessage opts now frame).books = w.books := by
  unfold World.onmessage World.dispatch World.deliver World.remember
  cases frame with
  | none => rfl
  | some frame =>
    dsimp only
    split
    · rfl
    · split
      · rfl
      · split
        · split <;> rfl
        · rfl

/-! ## The scopes -/

/-- The references are counted, and what is live carries the scopes that have some, unless it is about to. -/
structure Scoped (w : World) : Prop where
  refs : ∀ k, (w.client.scopeRefs.lookup k).getD 0 = w.refs k
  pos : ∀ k ∈ w.client.scopeRefs, 0 < w.refs k
  fresh : ∀ i, w.nextSocket ≤ i → w.subscribed i = ∅
  connecting : ∀ i s, w.sockets i = some s → s.live → s.readyState = .connecting → w.subscribed i = ∅
  only : ∀ i s, w.sockets i = some s → s.live → s.readyState = .open → ∀ k ∈ w.subscribed i, 0 < w.refs k
  all : ∀ i s, w.sockets i = some s → s.live → s.readyState = .open → .opened i ∉ w.rests → ∀ k, 0 < w.refs k → k ∈ w.subscribed i

theorem Scoped.mem_iff (h : Scoped w) : k ∈ w.client.scopeRefs ↔ 0 < w.refs k := by
  refine ⟨h.pos k, fun hpos => ?_⟩
  rw [← h.refs k] at hpos
  cases hk : w.client.scopeRefs.lookup k with
  | none =>
    rw [hk] at hpos
    cases hpos
  | some n => exact AList.lookup_isSome.1 (by simp [hk])

/-- What is live may die, and listeners may be told. -/
theorem Scoped.shrink (h : Scoped w) (hbooks : w'.books = w.books) (hnext : w'.nextSocket = w.nextSocket)
    (hsockets : ∀ i s, w'.sockets i = some s → s.live → w.sockets i = some s)
    (hrests : ∀ i, .opened i ∈ w.rests → .opened i ∈ w'.rests) : Scoped w' := by
  have hscopes : w'.client.scopeRefs = w.client.scopeRefs := congrArg Books.scopeRefs hbooks
  have hsubs : w'.subscriptions = w.subscriptions := congrArg Books.subscriptions hbooks
  have hsent : w'.subscribed = w.subscribed := congrArg Books.subscribed hbooks
  have hcount : w'.refs = w.refs := by
    funext k
    rw [World.refs, hsubs]
    rfl
  constructor
  · rw [hscopes, hcount]
    exact h.refs
  · rw [hscopes, hcount]
    exact h.pos
  · rw [hnext, hsent]
    exact h.fresh
  · rw [hsent]
    exact fun i s hs hlive => h.connecting i s (hsockets i s hs hlive) hlive
  · rw [hsent, hcount]
    exact fun i s hs hlive => h.only i s (hsockets i s hs hlive) hlive
  · rw [hsent, hcount]
    exact fun i s hs hlive hopen hmem => h.all i s (hsockets i s hs hlive) hlive hopen fun hold => hmem (hrests i hold)

/-- Where nothing is live any more, no scopes have to be carried. -/
theorem Scoped.of_dead (h : Scoped w) (hdead : w'.wiring.Dead) (hbooks : w'.books = w.books) (hnext : w'.nextSocket = w.nextSocket) :
    Scoped w' := by
  have hnone : ∀ i s, w'.sockets i = some s → s.live = true → False := fun i s hs hlive =>
    absurd (hdead.dead i s hs) (by simp [hlive])
  have hshrunk : Scoped { w' with rests := w.rests } :=
    h.shrink hbooks hnext (fun i s hs hlive => (hnone i s hs hlive).elim) fun i hi => hi
  exact { hshrunk with all := fun i s hs hlive => (hnone i s hs hlive).elim }

/-! ### Frames -/

theorem receiver_eq_some : w.receiver = some i ↔ w.client.socket = some i ∧ ∃ s, w.sockets i = some s ∧ s.readyState = .open := by
  unfold World.receiver
  rw [Option.filter_eq_some_iff, Option.any_eq_true]
  simp only [decide_eq_true_eq]

/-- What is live and open receives the frames. -/
theorem receiver_of_live (h : w.wiring.Sound opts) (hi : w.sockets i = some s) (hlive : s.live) (hopen : s.readyState = .open) :
    w.receiver = some i :=
  receiver_eq_some.2 ⟨h.held i s hi hlive, s, hi, hopen⟩

theorem send_subscribed (c : Control) (j : Nat) :
    (w.send c).subscribed j = if w.receiver = some j then c.apply (w.subscribed j) else w.subscribed j := by
  unfold World.send
  cases hr : w.receiver with
  | none => simp
  | some i =>
    change Function.update w.subscribed i (c.apply (w.subscribed i)) j = _
    cases hij : decide (j = i) with
    | true =>
      cases of_decide_eq_true hij
      rw [Function.update_self, if_pos rfl]
    | false =>
      have hne : j ≠ i := of_decide_eq_false hij
      rw [Function.update_of_ne hne, if_neg fun heq => hne (Option.some.inj heq).symm]

/-- Only the socket that receives the frames has to be looked at. -/
theorem Scoped.sent (h : Scoped w) (hsound : w.wiring.Sound opts) (hsockets : w'.sockets = w.sockets) (hnext : w'.nextSocket = w.nextSocket)
    (hrefs : ∀ k, (w'.client.scopeRefs.lookup k).getD 0 = w'.refs k) (hpos : ∀ k ∈ w'.client.scopeRefs, 0 < w'.refs k)
    (hsent : ∀ i, w.receiver ≠ some i → w'.subscribed i = w.subscribed i)
    (honly : ∀ i, w.receiver = some i → (∀ k ∈ w.subscribed i, 0 < w.refs k) → ∀ k ∈ w'.subscribed i, 0 < w'.refs k)
    (hall : ∀ i, w.receiver = some i → (.opened i ∉ w.rests → ∀ k, 0 < w.refs k → k ∈ w.subscribed i) → .opened i ∉ w'.rests →
      ∀ k, 0 < w'.refs k → k ∈ w'.subscribed i) : Scoped w' where
  refs := hrefs
  pos := hpos
  fresh i hi := by
    rw [hnext] at hi
    rw [hsent i fun hr => ?_]
    · exact h.fresh i hi
    · obtain ⟨-, s, hs, -⟩ := receiver_eq_some.1 hr
      exact absurd (hsound.known i s hs) (Nat.not_lt.2 hi)
  connecting i s hs hlive hconn := by
    rw [hsockets] at hs
    rw [hsent i fun hr => ?_]
    · exact h.connecting i s hs hlive hconn
    · obtain ⟨-, t, ht, hopen⟩ := receiver_eq_some.1 hr
      cases hs.symm.trans ht
      exact absurd (hconn.symm.trans hopen) (by decide)
  only i s hs hlive hopen := by
    rw [hsockets] at hs
    exact honly i (receiver_of_live hsound hs hlive hopen) (h.only i s hs hlive hopen)
  all i s hs hlive hopen := by
    rw [hsockets] at hs
    exact hall i (receiver_of_live hsound hs hlive hopen) (h.all i s hs hlive hopen)

/-! ### Subscriptions -/

theorem send_books {c : Control} : (w.send c).client = w.client ∧ (w.send c).subscriptions = w.subscriptions := by
  unfold World.send
  split <;> exact ⟨rfl, rfl⟩

theorem subscribe_books (h : Scoped w) : (w.subscribe k).client.scopeRefs = w.client.scopeRefs.insert k (w.refs k + 1) ∧
    (w.subscribe k).subscriptions = w.subscriptions ++ [(k, false)] := by
  rw [World.subscribe, h.refs k]
  dsimp only
  split
  · rw [send_books.1, send_books.2]
    exact ⟨rfl, rfl⟩
  · exact ⟨rfl, rfl⟩

theorem subscribe_refs (h : Scoped w) (j : Scope) : (w.subscribe k).refs j = w.refs j + if j = k then 1 else 0 := by
  rw [World.refs, (subscribe_books h).2, List.countP_append, List.countP_singleton]
  simp [World.refs, eq_comm]

/-- The first subscription of a scope is sent. -/
theorem subscribe_subscribed (h : Scoped w) (i : Nat) : (w.subscribe k).subscribed i =
    if w.refs k = 0 ∧ w.receiver = some i then insert k (w.subscribed i) else w.subscribed i := by
  rw [World.subscribe, h.refs k]
  dsimp only
  split
  · rename_i hfirst
    rw [send_subscribed]
    have hzero : w.refs k = 0 := Nat.succ.inj hfirst
    simp only [hzero, true_and]
    rfl
  · rename_i hmore
    rw [if_neg fun hboth => hmore (by rw [hboth.1])]

theorem subscribe_scoped (hsound : w.wiring.Sound opts) (h : Scoped w) : Scoped (w.subscribe k) := by
  obtain ⟨hscopes, -⟩ := subscribe_books (k := k) h
  have hrefs := subscribe_refs (k := k) h
  have hsent := subscribe_subscribed (k := k) h
  have hwiring : (w.subscribe k).wiring = w.wiring := subscribe_wiring
  refine h.sent hsound (congrArg Wiring.sockets hwiring) (congrArg Wiring.nextSocket hwiring) (fun j => ?_) (fun j hj => ?_)
    (fun i hr => ?_) (fun i hr honly j hj => ?_) fun i hr hall hmem j hj => ?_
  · rw [hscopes, hrefs]
    split
    · rename_i hjk
      rw [hjk, AList.lookup_insert]
      rfl
    · rename_i hjk
      rw [AList.lookup_insert_ne hjk, h.refs]
      rfl
  · rw [hrefs]
    rw [hscopes, AList.mem_insert] at hj
    cases hj with
    | inl hjk => simp [hjk]
    | inr hj => exact Nat.lt_of_lt_of_le (h.pos j hj) (Nat.le_add_right _ _)
  · rw [hsent, if_neg fun hboth => hr hboth.2]
  · rw [hrefs]
    rw [hsent] at hj
    split at hj
    · cases Finset.mem_insert.1 hj with
      | inl hjk => simp [hjk]
      | inr hj => exact Nat.lt_of_lt_of_le (honly j hj) (Nat.le_add_right _ _)
    · exact Nat.lt_of_lt_of_le (honly j hj) (Nat.le_add_right _ _)
  · rw [show (w.subscribe k).rests = w.rests from congrArg Wiring.rests hwiring] at hmem
    have hold : ∀ j, 0 < w.refs j → j ∈ w.subscribed i := hall hmem
    rw [hsent]
    rw [hrefs] at hj
    split
    · cases hjk : decide (j = k) with
      | true => exact Finset.mem_insert.2 (.inl (of_decide_eq_true hjk))
      | false =>
        rw [if_neg (of_decide_eq_false hjk)] at hj
        exact Finset.mem_insert_of_mem (hold j hj)
    · rename_i hnot
      refine hold j ?_
      cases hjk : decide (j = k) with
      | true =>
        rw [of_decide_eq_true hjk]
        exact Nat.pos_of_ne_zero fun hzero => hnot ⟨hzero, hr⟩
      | false =>
        rw [if_neg (of_decide_eq_false hjk)] at hj
        exact hj

/-- A disposer releases one reference, once. -/
theorem dispose_refs {t : Nat} {used : Bool} (ht : w.subscriptions[t]? = some (k, used)) (j : Scope) :
    (w.dispose t k).refs j = w.refs j - if k = j ∧ used = false then 1 else 0 := by
  obtain ⟨hlt, hget⟩ := List.getElem?_eq_some_iff.1 ht
  have hsubs : (w.dispose t k).subscriptions = w.subscriptions.set t (k, true) := by
    unfold World.dispose
    dsimp only
    split
    · exact send_books.2
    · rfl
  rw [World.refs, hsubs, List.countP_set hlt, hget]
  simp [World.refs]

/-- What is left of a scope that is released. -/
theorem dispose_scopeRefs (h : Scoped w) (t : Nat) : (w.dispose t k).client.scopeRefs =
    if w.refs k ≤ 1 then w.client.scopeRefs.erase k else w.client.scopeRefs.insert k (w.refs k - 1) := by
  rw [World.dispose, h.refs k]
  dsimp only
  split
  · rename_i hlast
    rw [if_pos (Nat.sub_le_iff_le_add.1 hlast), send_books.1]
  · rename_i hmore
    rw [if_neg fun hle => hmore (Nat.sub_le_iff_le_add.2 hle)]

theorem dispose_subscribed (h : Scoped w) (t i : Nat) : (w.dispose t k).subscribed i =
    if w.refs k ≤ 1 ∧ w.receiver = some i then (w.subscribed i).erase k else w.subscribed i := by
  rw [World.dispose, h.refs k]
  dsimp only
  split
  · rename_i hlast
    rw [send_subscribed]
    have hle : w.refs k ≤ 1 := Nat.sub_le_iff_le_add.1 hlast
    simp only [hle, true_and]
    rfl
  · rename_i hmore
    rw [if_neg fun hboth => hmore (Nat.sub_le_iff_le_add.2 hboth.1)]

theorem dispose_scoped {t : Nat} {used : Bool} (hsound : w.wiring.Sound opts) (h : Scoped w)
    (ht : w.subscriptions[t]? = some (k, used)) (hagain : used = true → w.refs k = 0) : Scoped (w.dispose t k) := by
  have hwiring : (w.dispose t k).wiring = w.wiring := dispose_wiring
  have hscopes := dispose_scopeRefs (k := k) h t
  have hsent := dispose_subscribed (k := k) h t
  -- a disposer that is called again finds nothing to release
  have hrefs : ∀ j, (w.dispose t k).refs j = if j = k then w.refs k - 1 else w.refs j := by
    intro j
    rw [dispose_refs ht]
    split
    · rename_i hfirst
      rw [if_pos hfirst.1.symm, hfirst.1]
    · rename_i hnot
      split
      · rename_i hjk
        have hused : used = true := by simpa [hjk] using hnot
        rw [hjk, hagain hused]
      · rfl
  refine h.sent hsound (congrArg Wiring.sockets hwiring) (congrArg Wiring.nextSocket hwiring) (fun j => ?_) (fun j hj => ?_)
    (fun i hr => ?_) (fun i hr honly j hj => ?_) fun i hr hall hmem j hj => ?_
  · rw [hscopes, hrefs]
    split
    · rename_i hlast
      split
      · rename_i hjk
        rw [hjk, AList.lookup_erase, Nat.sub_eq_zero_of_le hlast]
        rfl
      · rename_i hjk
        rw [AList.lookup_erase_ne hjk, h.refs]
    · split
      · rename_i hjk
        rw [hjk, AList.lookup_insert]
        rfl
      · rename_i hjk
        rw [AList.lookup_insert_ne hjk, h.refs]
  · rw [hrefs]
    rw [hscopes] at hj
    split at hj
    · obtain ⟨hjk, hj⟩ := AList.mem_erase.1 hj
      rw [if_neg hjk]
      exact h.pos j hj
    · rename_i hmore
      split
      · exact Nat.sub_pos_of_lt (not_le.1 hmore)
      · rename_i hjk
        exact h.pos j (((AList.mem_insert _).1 hj).resolve_left hjk)
  · rw [hsent, if_neg fun hboth => hr hboth.2]
  · rw [hrefs]
    rw [hsent] at hj
    split at hj
    · obtain ⟨hjk, hj⟩ := Finset.mem_erase.1 hj
      rw [if_neg hjk]
      exact honly j hj
    · rename_i hmore
      split
      · exact Nat.sub_pos_of_lt (not_le.1 fun hle => hmore ⟨hle, hr⟩)
      · exact honly j hj
  · rw [show (w.dispose t k).rests = w.rests from congrArg Wiring.rests hwiring] at hmem
    rw [hrefs] at hj
    rw [hsent]
    split at hj
    · rename_i hjk
      rw [if_neg fun hboth => absurd (Nat.sub_eq_zero_of_le hboth.1) hj.ne', hjk]
      exact hall hmem k (Nat.lt_of_lt_of_le hj (Nat.sub_le _ _))
    · rename_i hjk
      split
      · exact Finset.mem_erase.2 ⟨hjk, hall hmem j hj⟩
      · exact hall hmem j hj

/-! ### Calls and their rests -/

theorem startHeartbeat_receiver : (w.startHeartbeat opts now).receiver = w.receiver := by
  have hstop : w.stopHeartbeat.receiver = w.receiver := by
    unfold World.stopHeartbeat
    split <;> rfl
  unfold World.startHeartbeat
  dsimp only
  split
  · exact hstop
  · exact hstop

theorem startHeartbeat_sockets : (w.startHeartbeat opts now).sockets = w.sockets ∧
    (w.startHeartbeat opts now).nextSocket = w.nextSocket := by
  have hstop : w.stopHeartbeat.sockets = w.sockets ∧ w.stopHeartbeat.nextSocket = w.nextSocket := by
    unfold World.stopHeartbeat
    split <;> exact ⟨rfl, rfl⟩
  unfold World.startHeartbeat
  dsimp only
  split
  · exact hstop
  · exact hstop

/-- All the scopes with references are sent to the socket that receives the frames. -/
theorem resubscribe_subscribed (i : Nat) : w.resubscribe.subscribed i =
    if w.receiver = some i then w.subscribed i ∪ w.client.scopeRefs.keys.toFinset else w.subscribed i := by
  unfold World.resubscribe
  generalize w.client.scopeRefs.keys = keys
  induction keys generalizing w with
  | nil => simp
  | cons k keys ih =>
    have hreceiver : (w.send (.subscribe k)).receiver = w.receiver := by
      unfold World.send
      split <;> rfl
    rw [List.foldl_cons, ih, hreceiver, send_subscribed]
    split
    · rw [List.toFinset_cons, Control.apply, Finset.insert_union, Finset.union_insert]
    · rfl

theorem resubscribe_books : w.resubscribe.client = w.client ∧ w.resubscribe.subscriptions = w.subscriptions := by
  unfold World.resubscribe
  generalize w.client.scopeRefs.keys = keys
  induction keys generalizing w with
  | nil => exact ⟨rfl, rfl⟩
  | cons k keys ih =>
    obtain ⟨hclient, hsubs⟩ := ih (w := w.send (.subscribe k))
    rw [List.foldl_cons, hclient, hsubs]
    exact send_books

theorem mem_of_mem_push {r' : Rest} (hne : r' ≠ r) (h : r' ∈ (w.push r).rests) : r' ∈ w.rests :=
  (List.mem_cons.1 h).resolve_left hne

theorem finish_scoped (hsound : (w.push r).wiring.Sound opts) (h : Scoped (w.push r)) : Scoped (w.finish opts now r) := by
  cases r with
  | create =>
    have hold : ∀ i s, (w.finish opts now .create).sockets i = some s →
        (i = w.nextSocket ∧ s = {}) ∨ w.sockets i = some s := by
      intro i s hs
      change Function.update w.sockets w.nextSocket (some {}) i = some s at hs
      cases hi : decide (i = w.nextSocket) with
      | true =>
        cases of_decide_eq_true hi
        rw [Function.update_self] at hs
        exact .inl ⟨rfl, (Option.some.inj hs).symm⟩
      | false =>
        rw [Function.update_of_ne (of_decide_eq_false hi)] at hs
        exact .inr hs
    have hrests : ∀ i, .opened i ∉ w.rests → .opened i ∉ (w.push .create).rests := fun i hi hmem =>
      hi (mem_of_mem_push (fun heq => by cases heq) hmem)
    exact
      { refs := h.refs
        pos := h.pos
        fresh := fun i hi => h.fresh i (Nat.le_of_succ_le hi)
        connecting := fun i s hs hlive hconn => by
          cases hold i s hs with
          | inl hnew => exact h.fresh i hnew.1.ge
          | inr hs => exact h.connecting i s hs hlive hconn
        only := fun i s hs hlive hopen => by
          cases hold i s hs with
          | inl hnew =>
            rw [hnew.2] at hopen
            cases hopen
          | inr hs => exact h.only i s hs hlive hopen
        all := fun i s hs hlive hopen hmem => by
          cases hold i s hs with
          | inl hnew =>
            rw [hnew.2] at hopen
            cases hopen
          | inr hs => exact h.all i s hs hlive hopen (hrests i hmem) }
  | opened i =>
    have hbeat : (w.startHeartbeat opts now).books = w.books := startHeartbeat_books
    have hscopes : (w.finish opts now (.opened i)).client.scopeRefs = w.client.scopeRefs :=
      (congrArg WsClient.scopeRefs resubscribe_books.1).trans (congrArg Books.scopeRefs hbeat)
    have hsubs : (w.finish opts now (.opened i)).subscriptions = w.subscriptions :=
      resubscribe_books.2.trans (congrArg Books.subscriptions hbeat)
    have hrefs : (w.finish opts now (.opened i)).refs = w.refs := by
      funext k
      rw [World.refs, hsubs]
      rfl
    have hsent : ∀ j, (w.finish opts now (.opened i)).subscribed j =
        if w.receiver = some j then w.subscribed j ∪ w.client.scopeRefs.keys.toFinset else w.subscribed j := by
      intro j
      rw [World.finish, resubscribe_subscribed, startHeartbeat_receiver, show (w.startHeartbeat opts now).subscribed = w.subscribed from
        congrArg Books.subscribed hbeat, show (w.startHeartbeat opts now).client.scopeRefs = w.client.scopeRefs from
        congrArg Books.scopeRefs hbeat]
    have hsockets : (w.finish opts now (.opened i)).sockets = w.sockets :=
      (congrArg Wiring.sockets resubscribe_wiring).trans startHeartbeat_sockets.1
    have hnext : (w.finish opts now (.opened i)).nextSocket = w.nextSocket :=
      (congrArg Wiring.nextSocket resubscribe_wiring).trans startHeartbeat_sockets.2
    refine h.sent hsound hsockets hnext (fun j => ?_) (fun j hj => ?_) (fun j hr => ?_) (fun j hr honly k hk => ?_)
      fun j hr _ _ k hk => ?_
    · rw [hscopes, hrefs]
      exact h.refs j
    · rw [hscopes] at hj
      rw [hrefs]
      exact h.pos j hj
    · rw [hsent]
      exact if_neg hr
    · rw [hsent] at hk
      rw [hrefs]
      split at hk
      · cases Finset.mem_union.1 hk with
        | inl hk => exact honly k hk
        | inr hk => exact h.pos k (List.mem_toFinset.1 hk)
      · exact honly k hk
    · have hr : w.receiver = some j := hr
      rw [hrefs] at hk
      rw [hsent, if_pos hr]
      exact Finset.mem_union_right _ (List.mem_toFinset.2 (h.mem_iff.2 hk))
  | retry =>
    refine h.shrink rfl rfl (fun i s hs _ => hs) fun i hi => ?_
    exact mem_of_mem_push (fun heq => by cases heq) hi

theorem setStatus_scoped {status : WsStatus} (hsound : (w.push r).wiring.Sound opts) (h : Scoped (w.push r)) :
    Scoped (w.setStatus opts now status r) := by
  unfold World.setStatus
  split
  · exact finish_scoped hsound h
  · exact h.shrink rfl rfl (fun i s hs _ => hs) fun i hi => hi

end Ploykit.Client

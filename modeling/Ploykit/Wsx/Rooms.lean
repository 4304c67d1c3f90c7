import Ploykit.Wsx.Hub

/-!
# Rooms and scopes

Who is a member of a room is stored twice. The two agree in every run in which no client that
has been taken out of its rooms is put into one. A client counts as dropped from the moment
at which its drop takes it out of its rooms.
-/

namespace Ploykit.Wsx

open Lib

/-- A client is in a room exactly where the room is one of its scopes and it has not been dropped. No room is empty. -/
structure Consistent (w : World) : Prop where
  member : ∀ c scope, w.IsIn c scope ↔ scope ∈ (w.client c).scopes ∧ (w.client c).removed = false
  nonempty : ∀ scope, w.rooms scope ≠ some ∅

/-- Nobody joins a room after its drop has taken it out of all of them. -/
def JoinsLive (_ : Nat) : {β : Type} → Op β → World → Prop
  | _, .joinRoom c _, w => (w.client c).removed = false
  | _, _, _ => True

section consistent

variable {w w' : World} {c c' : Nat} {scope scope' : String} {room : Finset Nat}

/-! ## Rooms -/

theorem setClient_self (f : Client → Client) : (w.setClient c f).client c = f (w.client c) := Function.update_self ..

theorem setClient_ne (f : Client → Client) (h : c' ≠ c) : (w.setClient c f).client c' = w.client c' := Function.update_of_ne h ..

/-- Who is left in a room without the client. -/
theorem mem_without {found : Option (Finset Nat)} :
    (∃ room, found.bind (World.without c) = some room ∧ c' ∈ room) ↔ c' ≠ c ∧ ∃ room, found = some room ∧ c' ∈ room := by
  cases found with
  | none => simp
  | some room =>
    simp only [Option.bind_some, World.without, Option.some.injEq, exists_eq_left']
    split
    · rename_i hempty
      constructor
      · rintro ⟨room', hroom, -⟩
        cases hroom
      · rintro ⟨hne, hmem⟩
        have hleft : c' ∈ room.erase c := Finset.mem_erase.2 ⟨hne, hmem⟩
        rw [hempty] at hleft
        exact absurd hleft (Finset.notMem_empty c')
    · simp

theorem without_ne_empty (found : Option (Finset Nat)) : found.bind (World.without c) ≠ some ∅ := by
  cases found with
  | none => exact nofun
  | some room =>
    simp only [Option.bind_some, World.without]
    split
    · exact nofun
    · rename_i hleft
      exact fun h => hleft (Option.some.inj h)

/-! ## Each call -/

theorem join_nonempty (h : w.rooms scope' ≠ some ∅) : (w.join c scope).2.rooms scope' ≠ some ∅ := by
  simp only [World.join, Function.update_apply]
  split
  · exact fun hempty => Finset.insert_ne_empty _ _ (Option.some.inj hempty)
  · exact h

theorem leave_nonempty (h : w.rooms scope' ≠ some ∅) : (w.leave c scope).2.rooms scope' ≠ some ∅ := by
  simp only [World.leave, Function.update_apply]
  split
  · exact without_ne_empty _
  · exact h

theorem removeAll_nonempty (h : w.rooms scope' ≠ some ∅) : (w.removeAll c).rooms scope' ≠ some ∅ := by
  simp only [World.removeAll]
  split
  · exact without_ne_empty _
  · exact h

theorem Consistent.join (h : Consistent w) (hlive : (w.client c).removed = false) : Consistent (w.join c scope).2 where
  member c' scope' := by
    have hclient : ((w.join c scope).2).client = (w.setClient c fun cl => { cl with scopes := insert scope cl.scopes }).client := rfl
    have hroom : ((w.join c scope).2).rooms scope' =
        if scope' = scope then some (insert c ((w.rooms scope).getD ∅)) else w.rooms scope' := by
      simp only [World.join, Function.update_apply]
    have hold := h.member c' scope'
    rw [World.IsIn] at hold
    rw [World.IsIn, hroom, hclient]
    rcases eq_or_ne c' c with rfl | hc
    · rw [setClient_self]
      rcases eq_or_ne scope' scope with rfl | hs
      · simp [hlive]
      · rw [if_neg hs, hold]
        simp [hs]
    · rw [setClient_ne _ hc, ← hold]
      rcases eq_or_ne scope' scope with rfl | hs
      · cases hroom : w.rooms scope' with
        | none => simp [hc]
        | some room => simp [hc]
      · rw [if_neg hs]
  nonempty scope' := join_nonempty (h.nonempty scope')

theorem Consistent.leave (h : Consistent w) : Consistent (w.leave c scope).2 where
  member c' scope' := by
    have hclient : ((w.leave c scope).2).client = (w.setClient c fun cl => { cl with scopes := cl.scopes.erase scope }).client := rfl
    have hroom : ((w.leave c scope).2).rooms scope' =
        if scope' = scope then (w.rooms scope).bind (World.without c) else w.rooms scope' := by
      simp only [World.leave, Function.update_apply]
    have hold := h.member c' scope'
    rw [World.IsIn] at hold
    rw [World.IsIn, hroom, hclient]
    rcases eq_or_ne scope' scope with rfl | hs
    · rw [if_pos rfl, mem_without, hold]
      rcases eq_or_ne c' c with rfl | hc
      · rw [setClient_self]
        simp
      · rw [setClient_ne _ hc]
        simp [hc]
    · rw [if_neg hs, hold]
      rcases eq_or_ne c' c with rfl | hc
      · rw [setClient_self]
        simp [hs]
      · rw [setClient_ne _ hc]
  nonempty scope' := leave_nonempty (h.nonempty scope')

theorem Consistent.removeAll (h : Consistent w) : Consistent (w.removeAll c) where
  member c' scope' := by
    have hclient : (w.removeAll c).client = (w.setClient c fun cl => { cl with removed := true }).client := rfl
    have hroom : (w.removeAll c).rooms scope' =
        if scope' ∈ (w.client c).scopes then (w.rooms scope').bind (World.without c) else w.rooms scope' := rfl
    have hold := h.member c' scope'
    rw [World.IsIn] at hold
    rw [World.IsIn, hroom, hclient]
    split
    · rw [mem_without, hold]
      rcases eq_or_ne c' c with rfl | hc
      · rw [setClient_self]
        simp
      · rw [setClient_ne _ hc]
        simp [hc]
    · rename_i hscope
      rw [hold]
      rcases eq_or_ne c' c with rfl | hc
      · rw [setClient_self]
        simp [hscope]
      · rw [setClient_ne _ hc]
  nonempty scope' := removeAll_nonempty (h.nonempty scope')

/-- A change of what else a client has. -/
theorem Consistent.setClient (h : Consistent w) {f : Client → Client} (hscopes : ∀ cl, (f cl).scopes = cl.scopes)
    (hremoved : ∀ cl, (f cl).removed = cl.removed) : Consistent (w.setClient c f) where
  member c' scope := by
    rw [show (w.setClient c f).IsIn c' scope ↔ w.IsIn c' scope from .rfl, h.member c' scope]
    rcases eq_or_ne c' c with rfl | hc
    · rw [setClient_self, hscopes, hremoved]
    · rw [setClient_ne _ hc]
  nonempty := h.nonempty

theorem Consistent.announce (h : Consistent w) (i : Nat) {β : Type} (o : Op β) (r : β) : Consistent (w.announce i o r) :=
  ⟨h.member, h.nonempty⟩

/-- Every call keeps rooms and scopes in step, where nobody joins after its drop. -/
theorem Step.consistent {i : Nat} {β : Type} {o : Op β} {r : β} (h : Step i o w r w') (hlive : JoinsLive i o w)
    (hw : Consistent w) : Consistent w' := by
  obtain ⟨w₁, heffect, rfl⟩ := h
  refine Consistent.announce ?_ i o r
  cases o with
  | joinRoom c scope =>
    rw [show w₁ = (w.join c scope).2 from congrArg Prod.snd heffect]
    exact hw.join hlive
  | leaveRoom c scope =>
    rw [show w₁ = (w.leave c scope).2 from congrArg Prod.snd heffect]
    exact hw.leave
  | swapDropped c =>
    obtain ⟨-, rfl⟩ := heffect
    exact hw.setClient (fun _ => rfl) fun _ => rfl
  | leaveRooms c =>
    obtain ⟨-, -, rfl⟩ := heffect
    exact hw.removeAll
  | subscribed c scope =>
    obtain ⟨-, rfl⟩ := heffect
    exact hw
  | identity c =>
    obtain ⟨-, rfl⟩ := heffect
    exact hw
  | authenticate c user =>
    cases heffect
    exact hw.setClient (fun _ => rfl) fun _ => rfl
  | targets scope =>
    obtain ⟨-, -, rfl⟩ := heffect
    exact hw
  | deliver c frame =>
    cases heffect
    exact hw.setClient (fun _ => rfl) fun _ => rfl
  | addConns n =>
    cases heffect
    exact ⟨hw.member, hw.nonempty⟩
  | _ =>
    cases heffect
    exact hw

/-- A call changes one client at most, and leaves it removed if it is so. -/
theorem effect_client {β : Type} {o : Op β} {r : β} (h : Effect o w r w') : w'.client = w.client ∨
    ∃ (c : Nat) (f : Client → Client), w'.client = Function.update w.client c (f (w.client c)) ∧ ∀ cl : Client, cl.removed → (f cl).removed := by
  cases o with
  | joinRoom c scope =>
    have hw := congrArg Prod.snd h
    exact .inr ⟨c, fun cl => { cl with scopes := insert scope cl.scopes }, congrArg World.client hw, fun _ h => h⟩
  | leaveRoom c scope =>
    have hw := congrArg Prod.snd h
    exact .inr ⟨c, fun cl => { cl with scopes := cl.scopes.erase scope }, congrArg World.client hw, fun _ h => h⟩
  | swapDropped c => exact .inr ⟨c, fun cl => { cl with dropped := true }, congrArg World.client h.2, fun _ h => h⟩
  | leaveRooms c => exact .inr ⟨c, fun cl => { cl with removed := true }, congrArg World.client h.2.2, fun _ _ => rfl⟩
  | authenticate c user => exact .inr ⟨c, fun cl => { cl with principal := some user }, congrArg World.client h, fun _ h => h⟩
  | deliver c frame =>
    exact .inr ⟨c, fun cl => { cl with dedup := (cl.dedup.deliver frame.eventID).2 }, congrArg World.client h, fun _ h => h⟩
  | targets scope => exact .inl (congrArg World.client h.2.2)
  | subscribed c scope => exact .inl (congrArg World.client h.2)
  | identity c => exact .inl (congrArg World.client h.2)
  | addConns n =>
    cases h
    exact .inl rfl
  | _ => exact .inl (congrArg World.client h)

/-- Who has been dropped stays so. -/
theorem Step.removed {i : Nat} {β : Type} {o : Op β} {r : β} (h : Step i o w r w') (hw : (w.client c).removed) :
    (w'.client c).removed := by
  obtain ⟨w₁, heffect, rfl⟩ := h
  change (w₁.client c).removed
  rcases effect_client heffect with hsame | ⟨c', f, hupdate, hf⟩
  · rwa [hsame]
  · rw [hupdate]
    rcases eq_or_ne c c' with rfl | hc
    · rw [Function.update_self]
      exact hf _ hw
    · rwa [Function.update_of_ne hc]

end consistent

/-! ## Runs -/

/-- Nobody has joined yet. -/
structure World.Starts (w : World) : Prop where
  rooms : w.rooms = fun _ => none
  scopes : ∀ c, (w.client c).scopes = ∅
  owed : w.owed = fun _ => []
  made : w.made = fun _ => []

theorem World.Starts.consistent {w : World} (h : w.Starts) : Consistent w where
  member c scope := by
    rw [World.IsIn, h.rooms, h.scopes c]
    simp
  nonempty scope := by
    rw [h.rooms]
    exact nofun

/-- Who was dropped in a state of the past is in no room. -/
def StaysOut (past : List (Pool Op World Unit)) (w : World) : Prop :=
  ∀ q ∈ past, ∀ c, (q.shared.client c).removed → ∀ scope, ¬ w.IsIn c scope

/-- In every run in which nobody joins after its drop, rooms and scopes agree, no room is empty, and nobody who
has been dropped comes back. -/
theorem rooms_consistent (h : Hub) {w : World} (hstart : w.Starts) {past : List (Pool Op World Unit)} {p : Pool Op World Unit}
    (hrun : Run (Pool.Next (machine.given JoinsLive) (Program h)) (.idle w) past p) :
    Consistent p.shared ∧ StaysOut past p.shared := by
  have hstep : ∀ {p p' : Pool Op World Unit}, Pool.Next (machine.given JoinsLive) (Program h) p p' →
      (Consistent p.shared → Consistent p'.shared) ∧ ∀ c, (p.shared.client c).removed → (p'.shared.client c).removed := by
    intro p p' hnext
    cases hnext with
    | start _ _ => exact ⟨id, fun _ => id⟩
    | exec _ hs => exact ⟨hs.2.consistent hs.1, fun _ => hs.2.removed⟩
    | finish _ => exact ⟨id, fun _ => id⟩
    | crash _ => exact ⟨id, fun _ => id⟩
    | env hs =>
      cases hs
      exact ⟨id, fun _ => id⟩
  have hboth : Consistent p.shared ∧ ∀ q ∈ past, ∀ c, (q.shared.client c).removed → (p.shared.client c).removed := by
    induction hrun with
    | start => exact ⟨hstart.consistent, fun q hq => (nomatch hq)⟩
    | next _ hnext ih =>
      refine ⟨(hstep hnext).1 ih.1, List.forall_mem_cons.2 ⟨(hstep hnext).2, fun q hq c hremoved => ?_⟩⟩
      exact (hstep hnext).2 c (ih.2 q hq c hremoved)
  refine ⟨hboth.1, fun q hq c hremoved scope hin => ?_⟩
  have hlive := ((hboth.1.member c scope).1 hin).2
  rw [hboth.2 q hq c hremoved] at hlive
  cases hlive

/-! ### A subscribe that is overtaken by the drop -/

/-- A hub where everybody may subscribe to a task. -/
def openHub : Hub := ⟨true, false, false, "", [], ["task"], false⟩

/-- Client 0 and client 1 are two connections of "ann". -/
def emptyWorld : World where
  rooms _ := none
  client _ := { principal := some "ann" }
  conns := 0
  owed _ := []
  made _ := []

theorem emptyWorld_starts : emptyWorld.Starts := ⟨rfl, fun _ => rfl, rfl, rfl⟩

/-- Execute a call where every answer that is left open is yes. Rooms are given client 0 and client 1, and of the
scopes one. -/
def execEffect {β : Type} (o : Op β) (w : World) : Option (β × World) :=
  match β, o with
  | _, .joinRoom c scope => some (w.join c scope)
  | _, .leaveRoom c scope => some (w.leave c scope)
  | _, .swapDropped c => some (!(w.client c).dropped, w.setClient c fun cl => { cl with dropped := true })
  | _, .leaveRooms c =>
    if w.emptied c = ∅ then some ([], w.removeAll c)
    else if w.emptied c = {"task:1"} then some (["task:1"], w.removeAll c)
    else none
  | _, .onSubscribe _ => some ((), w)
  | _, .onUnsubscribe _ => some ((), w)
  | _, .addConns n => some ((), { w with conns := w.conns + n })
  | _, .subscribed c scope => some (decide (scope ∈ (w.client c).scopes), w)
  | _, .identity c => some (((w.client c).principal, (w.client c).connWS), w)
  | _, .authenticate c user => some ((), w.setClient c fun cl => { cl with principal := some user })
  | _, .allowSubscribe _ => some (true, w)
  | _, .resolve token => some (some token, w)
  | _, .isMember _ _ => some (true, w)
  | _, .mayJoin _ _ _ _ => some (true, w)
  | _, .sendJSON _ _ _ => some ((), w)
  | _, .targets _ => none
  | _, .deliver c frame => some ((), w.setClient c fun cl => { cl with dedup := (cl.dedup.deliver frame.eventID).2 })
  | _, .publishOut _ _ => some ((), w)

theorem execEffect_effect {β : Type} {o : Op β} {w w' : World} {r : β} (h : execEffect o w = some (r, w')) : Effect o w r w' := by
  cases o with
  | joinRoom c scope => exact (Option.some.inj h).symm
  | leaveRoom c scope => exact (Option.some.inj h).symm
  | leaveRooms c =>
    simp only [execEffect] at h
    split at h
    · rename_i hnone
      cases h
      exact ⟨List.nodup_nil, fun scope => by simp [hnone], rfl⟩
    · split at h
      · rename_i hone
        cases h
        exact ⟨List.nodup_singleton _, fun scope => by simp [hone], rfl⟩
      · cases h
  | targets scope => cases h
  | _ =>
    cases h
    first | rfl | exact ⟨rfl, rfl⟩

def execs (i : Nat) {β : Type} (o : Op β) (w : World) : Option (β × World) :=
  (execEffect o w).map fun x => (x.1, x.2.announce i o x.1)

theorem execs_step (i : Nat) {β : Type} (o : Op β) (w : World) (r : β) (w' : World) (h : execs i o w = some (r, w')) :
    machine.step i o w r w' := by
  obtain ⟨x, hx, heq⟩ := Option.map_eq_some_iff.1 h
  cases heq
  exact ⟨x.2, execEffect_effect hx, rfl⟩

def joinsLive (_ : Nat) : {β : Type} → Op β → World → Bool
  | _, .joinRoom c _, w => !(w.client c).removed
  | _, _, _ => true

theorem joinsLive_holds (i : Nat) {β : Type} (o : Op β) (w : World) (h : joinsLive i o w) : JoinsLive i o w := by
  cases o with
  | joinRoom c scope =>
    change (w.client c).removed = false
    simpa [joinsLive] using h
  | _ => trivial

abbrev Turns := List (Turn Op World Unit)

/-- Client 0 subscribes to task 1. -/
def subscribes : Option RawControl := some { type := "subscribe", fields := { scope := "task", id := "1" } }

def subscribing (i n : Nat) : Turns := [.start i (openHub.handleControl 0 subscribes), .calls i n]

def dropping (i n : Nat) : Turns := [.start i (drop 0), .calls i n]

variable {M : Machine Op World}

theorem subscribing_legal (i n : Nat) : (subscribing i n).Forall (Turn.Legal M (Program openHub)) :=
  ⟨.handleControl 0 subscribes, trivial⟩

theorem dropping_legal (i n : Nat) : (dropping i n).Forall (Turn.Legal M (Program openHub)) := ⟨.drop 0, trivial⟩

theorem rooms_consistent_dropped : ∃ past p,
    Run (Pool.Next (machine.given JoinsLive) (Program openHub)) (.idle emptyWorld) past p ∧
    ((p.shared.client 0).removed ∧ (p.shared.client 0).scopes = {"task:1"}) ∧
      Consistent p.shared ∧ StaysOut past p.shared := by
  have hplay : (Pool.play (guarded joinsLive execs) (subscribing 0 7 ++ dropping 1 4) (.idle emptyWorld)).any fun p =>
      (p.shared.client 0).removed ∧ (p.shared.client 0).scopes = {"task:1"} := by decide
  obtain ⟨past, p, hrun, hcheck⟩ := Pool.play_any (guarded_step joinsLive_holds execs_step)
    (List.forall_append.2 ⟨subscribing_legal 0 7, dropping_legal 1 4⟩) hplay
  exact ⟨past, p, hrun, of_decide_eq_true hcheck, rooms_consistent openHub emptyWorld_starts hrun⟩

/-- The drop after the subscribe has been admitted, and before the client joins the room. -/
def overtaken : Turns := subscribing 0 4 ++ dropping 1 3 ++ [.calls 0 2]

theorem overtaken_legal : overtaken.Forall (Turn.Legal M (Program openHub)) :=
  List.forall_append.2 ⟨List.forall_append.2 ⟨subscribing_legal 0 4, dropping_legal 1 3⟩, trivial⟩

/-- The write pump drops the client while a subscribe of it is being answered. -/
theorem dropped_comes_back : ¬ ∀ (h : Hub) (w : World), w.Starts → ∀ past (p : Pool Op World Unit),
    Run (Pool.Next machine (Program h)) (.idle w) past p → Consistent p.shared ∧ StaysOut past p.shared := by
  intro h
  have hplay : (Pool.play execs overtaken (.idle emptyWorld)).any fun p =>
      (p.shared.client 0).removed ∧ p.shared.rooms "task:1" = some {0} := by decide
  obtain ⟨past, p, hrun, hcheck⟩ := Pool.play_any execs_step overtaken_legal hplay
  obtain ⟨hremoved, hroom⟩ := of_decide_eq_true hcheck
  have hconsistent := (h openHub emptyWorld emptyWorld_starts past p hrun).1
  have hlive := ((hconsistent.member 0 "task:1").1 ⟨_, hroom, Finset.mem_singleton_self 0⟩).2
  rw [hremoved] at hlive
  cases hlive

end Ploykit.Wsx

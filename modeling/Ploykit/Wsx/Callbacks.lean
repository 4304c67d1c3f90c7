import Ploykit.Wsx.Rooms

/-!
# Callbacks

`OnSubscribe` and `OnUnsubscribe` are called after the lock has been released. A goroutine owes
the callbacks between the two.
-/

namespace Ploykit.Wsx

open Lib

/-- Each callback is the other one than that before it, and the first is `OnSubscribe`. The last stands first. -/
def Alternating : List Bool → Prop
  | [] => True
  | cb :: made => cb = !made.headD false ∧ Alternating made

/-- Some goroutine still has to make a callback for the scope. -/
def World.Owes (w : World) (scope : String) : Prop := ∃ i, ∃ cb ∈ w.owed i, cb.scope = scope

/-- No room comes up or goes while a callback for it is owed. -/
def Announced (_ : Nat) : {β : Type} → Op β → World → Prop
  | _, .joinRoom _ scope, w => w.rooms scope = none → ¬ w.Owes scope
  | _, .leaveRoom c scope, w => w.empties c scope → ¬ w.Owes scope
  | _, .leaveRooms c, w => ∀ scope ∈ w.emptied c, ¬ w.Owes scope
  | _, _, _ => True

/-! ## Programs make the callbacks that they owe -/

/-- Rooms are changed where nothing is owed, and what is owed first is called first. -/
def InOrder : {β : Type} → List Callback → Op β → Prop
  | _, owed, .joinRoom _ _ => owed = []
  | _, owed, .leaveRoom _ _ => owed = []
  | _, owed, .leaveRooms _ => owed = []
  | _, owed, .onSubscribe scope => owed.head? = some ⟨scope, true⟩
  | _, owed, .onUnsubscribe scope => owed.head? = some ⟨scope, false⟩
  | _, _, _ => True

def duties : Monitor Op (List Callback) where
  allows owed := InOrder owed
  next := owing
  rests owed := owed = []
  init := []
  abort _ := []
  init_rests := rfl
  abort_rests _ := rfl

section programs

variable {α β : Type} {c : Nat} {scope : String}

/-- A script that owes nothing owes nothing at its end. -/
abbrev Discharges (m : Proc α) : Prop := m.Follows duties (fun owed _ => owed = []) []

/-- A call that has nothing to do with rooms. -/
def Plain (o : Op β) : Prop := InOrder [] o ∧ ∀ r, owing [] o r = []

theorem discharges_pure (a : α) : Discharges (pure a : Proc α) := rfl

theorem discharges_op {o : Op α} (h : Plain o) : Discharges (Script.op o) := ⟨h.1, h.2⟩

theorem Discharges.bind {m : Proc β} {f : β → Proc α} (hm : Discharges m) (hf : ∀ b, Discharges (f b)) : Discharges (m >>= f) :=
  Script.follows_bind (hm.mono fun owed b howed => by
    subst howed
    exact hf b)

theorem Discharges.ite {p : Prop} [Decidable p] {m n : Proc α} (hm : Discharges m) (hn : Discharges n) :
    Discharges (if p then m else n) := by
  split
  · exact hm
  · exact hn

theorem plain_sendJSON (c : Nat) (frameType : String) (payload : List (String × String)) :
    Plain (.sendJSON c frameType payload) := ⟨trivial, fun _ => rfl⟩

theorem join_discharges (c : Nat) (scope : String) : Discharges (join c scope) := by
  refine ⟨rfl, fun created => ?_⟩
  cases created with
  | true => exact ⟨rfl, fun _ => rfl⟩
  | false => rfl

theorem leave_discharges (c : Nat) (scope : String) : Discharges (leave c scope) := by
  refine ⟨rfl, fun emptied => ?_⟩
  cases emptied with
  | true => exact ⟨rfl, fun _ => rfl⟩
  | false => rfl

theorem unsubscribeAll_follows (scopes : List String) : (unsubscribeAll scopes).Follows duties (fun owed _ => owed = [])
    (scopes.map fun scope => ⟨scope, false⟩) := by
  induction scopes with
  | nil => rfl
  | cons scope scopes ih => exact ⟨rfl, fun _ => ih⟩

theorem drop_discharges (c : Nat) : Discharges (drop c) := by
  refine Discharges.bind (discharges_op ⟨trivial, fun _ => rfl⟩) fun first => ?_
  refine Discharges.ite ⟨rfl, fun emptied => ?_⟩ (discharges_pure _)
  simp only [Script.ret_bind]
  refine Script.follows_bind ((unsubscribeAll_follows emptied).mono fun owed _ howed => ?_)
  subst howed
  exact discharges_op ⟨trivial, fun _ => rfl⟩

theorem broadcastTo_discharges (frame : Frame) (clients : List Nat) : Discharges (broadcastTo frame clients) := by
  induction clients with
  | nil => rfl
  | cons c clients ih => exact Discharges.bind (discharges_op ⟨trivial, fun _ => rfl⟩) fun _ => ih

theorem broadcastLocal_discharges (scope : String) (frame : Frame) : Discharges (broadcastLocal scope frame) :=
  Discharges.bind (discharges_op ⟨trivial, fun _ => rfl⟩) fun targets => broadcastTo_discharges frame targets

namespace Hub

variable (h : Hub)

theorem broadcast_discharges (scope : String) (frame : Frame) : Discharges (h.broadcast scope frame) :=
  Discharges.bind (broadcastLocal_discharges scope frame) fun _ =>
    .ite (discharges_op ⟨trivial, fun _ => rfl⟩) (discharges_pure _)

theorem joinWorkspace_discharges (c : Nat) (workspaceID : String) : Discharges (h.joinWorkspace c workspaceID) := by
  refine Discharges.bind (discharges_op ⟨trivial, fun _ => rfl⟩) fun identity => ?_
  cases identity.1 with
  | none => exact discharges_pure _
  | some user =>
    refine .ite (discharges_pure _) (Discharges.bind (discharges_op ⟨trivial, fun _ => rfl⟩) fun member => ?_)
    exact .ite (Discharges.bind (join_discharges c _) fun _ => discharges_pure _) (discharges_pure _)

theorem serveWS_discharges (c : Nat) : Discharges (h.serveWS c) := by
  refine Discharges.bind (discharges_op ⟨trivial, fun _ => rfl⟩) fun _ => ?_
  refine Discharges.bind (discharges_op ⟨trivial, fun _ => rfl⟩) fun identity => ?_
  obtain ⟨user, connWS⟩ := identity
  cases user with
  | none => exact discharges_pure _
  | some user =>
    refine Discharges.bind (h.joinWorkspace_discharges c connWS) fun _ => Discharges.bind (join_discharges c _) fun _ => ?_
    exact .ite (discharges_pure _) (discharges_op (plain_sendJSON ..))

theorem reject_discharges (c : Nat) (what : String) (payload : List (String × String)) : Discharges (reject c what payload) :=
  discharges_op (plain_sendJSON ..)

theorem confirm_discharges (c : Nat) (what : String) (payload : List (String × String)) : Discharges (confirm c what payload) :=
  discharges_op (plain_sendJSON ..)

theorem handleAuth_discharges (c : Nat) (cf : ControlFrame) : Discharges (h.handleAuth c cf) := by
  refine Discharges.bind (discharges_op ⟨trivial, fun _ => rfl⟩) fun identity => ?_
  refine .ite (discharges_pure _) (.ite (reject_discharges ..) ?_)
  refine Discharges.bind (discharges_op ⟨trivial, fun _ => rfl⟩) fun user => ?_
  cases user with
  | none => exact reject_discharges ..
  | some user =>
    refine Discharges.bind (discharges_op ⟨trivial, fun _ => rfl⟩) fun _ => ?_
    exact Discharges.bind (join_discharges c _) fun _ => confirm_discharges ..

theorem subscribeWorkspace_discharges (c : Nat) (cf : ControlFrame) : Discharges (h.subscribeWorkspace c cf) := by
  refine Discharges.bind (discharges_op ⟨trivial, fun _ => rfl⟩) fun subscribed => ?_
  refine .ite (confirm_discharges ..) (.ite (reject_discharges ..) ?_)
  exact Discharges.bind (h.joinWorkspace_discharges c cf.id) fun joined => .ite (confirm_discharges ..) (reject_discharges ..)

theorem subscribeOther_discharges (c : Nat) (user connWS : String) (cf : ControlFrame) :
    Discharges (h.subscribeOther c user connWS cf) := by
  refine .ite (discharges_pure _) (.ite (reject_discharges ..) ?_)
  refine Discharges.bind (discharges_op ⟨trivial, fun _ => rfl⟩) fun subscribed => ?_
  refine .ite (confirm_discharges ..) (.ite (reject_discharges ..) ?_)
  refine Discharges.bind (discharges_op ⟨trivial, fun _ => rfl⟩) fun allowed => ?_
  exact .ite (Discharges.bind (join_discharges c _) fun _ => confirm_discharges ..) (reject_discharges ..)

theorem handleSubscribe_discharges (c : Nat) (cf : ControlFrame) : Discharges (h.handleSubscribe c cf) := by
  refine Discharges.bind (discharges_op ⟨trivial, fun _ => rfl⟩) fun identity => ?_
  obtain ⟨user, connWS⟩ := identity
  cases user with
  | none => exact reject_discharges ..
  | some user =>
    refine Discharges.bind (discharges_op ⟨trivial, fun _ => rfl⟩) fun allowed => ?_
    exact .ite (.ite (h.subscribeWorkspace_discharges c cf) (h.subscribeOther_discharges c user connWS cf)) (reject_discharges ..)

theorem handleControl_discharges (c : Nat) (raw : Option RawControl) : Discharges (h.handleControl c raw) := by
  cases raw with
  | none => exact reject_discharges ..
  | some raw =>
    refine .ite (h.handleAuth_discharges c _) (.ite (h.handleSubscribe_discharges c _) ?_)
    exact .ite (.ite (leave_discharges c _) (discharges_pure _)) (reject_discharges ..)

end Hub

theorem program_discharges {h : Hub} {m : Proc Unit} (hm : Program h m) : Discharges m := by
  cases hm with
  | serveWS c => exact h.serveWS_discharges c
  | handleControl c raw => exact h.handleControl_discharges c raw
  | join c scope => exact join_discharges c scope
  | leave c scope => exact leave_discharges c scope
  | drop c => exact drop_discharges c
  | broadcast scope frame => exact h.broadcast_discharges scope frame
  | deliverRemote scope frame => exact broadcastLocal_discharges scope frame

end programs

/-! ## What is owed and what has been called -/

/-- The callbacks for the scope among those that are owed. -/
def debts (scope : String) (owed : List Callback) : List Callback := owed.filter fun cb => cb.scope = scope

/-- The calls for a scope alternate. The last says whether the room is open, or one goroutine owes the one that will. -/
structure Tracks (scope : String) (owed : Nat → List Callback) (made : List Bool) (isOpen : Bool) : Prop where
  alternating : Alternating made
  last : (∀ i, debts scope (owed i) = []) ∧ made.headD false = isOpen ∨
    ∃ i, debts scope (owed i) = [⟨scope, isOpen⟩] ∧ (∀ j, j ≠ i → debts scope (owed j) = []) ∧ made.headD false = !isOpen

section tracks

variable {scope scope' : String} {owed : Nat → List Callback} {made : List Bool} {isOpen b : Bool} {i : Nat}
  {new rest : List Callback}

/-- Nothing changes for the scope. -/
theorem Tracks.keep (h : Tracks scope owed made isOpen) (hsame : debts scope new = debts scope (owed i)) :
    Tracks scope (Function.update owed i new) made isOpen := by
  have hdebts : ∀ j, debts scope (Function.update owed i new j) = debts scope (owed j) := by
    intro j
    rcases eq_or_ne j i with rfl | hj
    · rw [Function.update_self, hsame]
    · rw [Function.update_of_ne hj]
  refine ⟨h.alternating, ?_⟩
  simp only [hdebts]
  exact h.last

/-- The room comes up or goes, and the goroutine owes the callback. -/
theorem Tracks.owe (h : Tracks scope owed made (!b)) (hnone : ∀ j, debts scope (owed j) = [])
    (hnew : debts scope new = [⟨scope, b⟩]) : Tracks scope (Function.update owed i new) made b := by
  have hlast : made.headD false = !b := by
    rcases h.last with ⟨_, hlast⟩ | ⟨j, howes, _⟩
    · exact hlast
    · rw [hnone j] at howes
      cases howes
  refine ⟨h.alternating, .inr ⟨i, by rw [Function.update_self, hnew], fun j hj => ?_, hlast⟩⟩
  rw [Function.update_of_ne hj]
  exact hnone j

theorem debts_cons_self (scope : String) (b : Bool) (rest : List Callback) :
    debts scope (⟨scope, b⟩ :: rest) = ⟨scope, b⟩ :: debts scope rest := by
  simp [debts]

theorem debts_cons_other (h : scope' ≠ scope) (b : Bool) (rest : List Callback) :
    debts scope (⟨scope', b⟩ :: rest) = debts scope rest := by
  simp [debts, h]

/-- The callback that is owed is made. -/
theorem Tracks.make (h : Tracks scope owed made isOpen) (howed : owed i = ⟨scope, b⟩ :: rest) :
    Tracks scope (Function.update owed i rest) (b :: made) isOpen := by
  have hdebts : debts scope (owed i) = ⟨scope, b⟩ :: debts scope rest := by
    rw [howed, debts_cons_self]
  rcases h.last with ⟨hnone, _⟩ | ⟨j, howes, hothers, hlast⟩
  · rw [hnone i] at hdebts
    cases hdebts
  · have hij : i = j := by
      by_contra hne
      rw [hothers i hne] at hdebts
      cases hdebts
    subst hij
    rw [hdebts] at howes
    obtain ⟨hfirst, hrest⟩ := List.cons.inj howes
    have hb : b = isOpen := congrArg Callback.subscribe hfirst
    subst hb
    refine ⟨⟨by rw [hlast, Bool.not_not], h.alternating⟩, .inl ⟨fun k => ?_, rfl⟩⟩
    rcases eq_or_ne k i with rfl | hk
    · rw [Function.update_self, hrest]
    · rw [Function.update_of_ne hk]
      exact hothers k hk

theorem debts_map {scopes : List String} (hnodup : scopes.Nodup) :
    debts scope (scopes.map fun s => ⟨s, false⟩) = if scope ∈ scopes then [⟨scope, false⟩] else [] := by
  induction scopes with
  | nil => rfl
  | cons s scopes ih =>
    obtain ⟨hnot, hrest⟩ := List.nodup_cons.1 hnodup
    rw [List.map_cons]
    rcases eq_or_ne s scope with rfl | hne
    · rw [debts_cons_self, ih hrest, if_neg hnot, if_pos List.mem_cons_self]
    · rw [debts_cons_other hne, ih hrest]
      simp [Ne.symm hne]

end tracks

/-! ## Each call -/

/-- The callbacks of every scope track its room. -/
def World.Tracked (w : World) : Prop := ∀ scope, Tracks scope w.owed (w.made scope) (w.rooms scope).isSome

section tracked

variable {w w' : World} {c i : Nat} {scope scope' : String}

/-- A call does nothing to what is owed and what has been made. -/
theorem effect_ghost {β : Type} {o : Op β} {r : β} (h : Effect o w r w') : w'.owed = w.owed ∧ w'.made = w.made := by
  cases o with
  | joinRoom c scope =>
    have hw : w' = (w.join c scope).2 := congrArg Prod.snd h
    rw [hw]
    exact ⟨rfl, rfl⟩
  | leaveRoom c scope =>
    have hw : w' = (w.leave c scope).2 := congrArg Prod.snd h
    rw [hw]
    exact ⟨rfl, rfl⟩
  | swapDropped c =>
    obtain ⟨-, rfl⟩ := h
    exact ⟨rfl, rfl⟩
  | leaveRooms c =>
    obtain ⟨-, -, rfl⟩ := h
    exact ⟨rfl, rfl⟩
  | subscribed c scope =>
    obtain ⟨-, rfl⟩ := h
    exact ⟨rfl, rfl⟩
  | identity c =>
    obtain ⟨-, rfl⟩ := h
    exact ⟨rfl, rfl⟩
  | targets scope =>
    obtain ⟨-, -, rfl⟩ := h
    exact ⟨rfl, rfl⟩
  | _ =>
    cases h
    exact ⟨rfl, rfl⟩

theorem none_owed (h : ¬ w.Owes scope) (j : Nat) : debts scope (w.owed j) = [] :=
  List.filter_eq_nil_iff.2 fun cb hcb hscope => h ⟨j, cb, hcb, of_decide_eq_true hscope⟩

/-- Whether a room that somebody may leave is still there. -/
theorem without_isSome {found : Option (Finset Nat)} :
    (found.bind (World.without c)).isSome = (found.isSome && !found.any fun room => room.erase c = ∅) := by
  cases found with
  | none => rfl
  | some room =>
    simp only [Option.bind_some, World.without, Option.isSome_some, Option.any_some, Bool.true_and]
    split
    · rename_i hempty
      simp [hempty]
    · rename_i hleft
      simp [hleft]

/-- A goroutine that owed nothing owes the callback for one scope, if its room has come up or gone. -/
theorem Tracks.changed {owed : Nat → List Callback} {made : List Bool} {isOpen b change : Bool}
    (h : Tracks scope owed made isOpen) (scope' : String) (hnothing : owed i = []) {isOpen' : Bool}
    (hchanged : scope' = scope → change → (∀ j, debts scope (owed j) = []) ∧ isOpen = !b ∧ isOpen' = b)
    (hsame : scope' = scope → change = false → isOpen' = isOpen) (hother : scope' ≠ scope → isOpen' = isOpen) :
    Tracks scope (Function.update owed i (if change then owed i ++ [⟨scope', b⟩] else owed i)) made isOpen' := by
  rw [hnothing, List.nil_append]
  cases change with
  | false =>
    have hopen : isOpen' = isOpen := (eq_or_ne scope' scope).elim (fun heq => hsame heq rfl) hother
    rw [hopen]
    exact h.keep (by rw [hnothing]; rfl)
  | true =>
    rcases eq_or_ne scope' scope with rfl | hne
    · obtain ⟨hnone, hold, rfl⟩ := hchanged rfl rfl
      rw [hold] at h
      exact h.owe hnone (debts_cons_self ..)
    · rw [hother hne]
      exact h.keep (by rw [if_pos rfl, debts_cons_other hne, hnothing])

/-- A goroutine makes the callback that it owes first. -/
theorem World.Tracked.made {β : Type} {o : Op β} {r : β} {b : Bool} (hw : w.Tracked) (ho : announces o = some ⟨scope', b⟩)
    (howing : owing (w.owed i) o r = (w.owed i).tail) (hfirst : (w.owed i).head? = some ⟨scope', b⟩) :
    (w.announce i o r).Tracked := by
  intro scope
  obtain ⟨rest, howed⟩ := List.head?_eq_some_iff.1 hfirst
  have hrest : owing (w.owed i) o r = rest := by
    rw [howing, howed]
    rfl
  simp only [World.announce, ho, hrest]
  rcases eq_or_ne scope' scope with rfl | hne
  · rw [Function.update_self]
    exact (hw scope').make howed
  · rw [Function.update_of_ne (Ne.symm hne)]
    exact (hw scope).keep (by rw [howed, debts_cons_other hne])

/-- Every call keeps the callbacks of every scope on the track of its room. -/
theorem Step.tracked {β : Type} {o : Op β} {r : β} (h : Step i o w r w') (horder : InOrder (w.owed i) o)
    (hannounced : Announced i o w) (hw : w.Tracked) : w'.Tracked := by
  obtain ⟨w₁, heffect, rfl⟩ := h
  obtain ⟨howed, hmade⟩ := effect_ghost heffect
  -- calls that have nothing to do with rooms
  have hplain : owing (w.owed i) o r = w.owed i → announces o = none → w₁.rooms = w.rooms → (w₁.announce i o r).Tracked := by
    intro howing hnone hrooms scope
    have htracks := hw scope
    simp only [World.announce, howed, hmade, howing, hnone, hrooms, Function.update_eq_self]
    exact htracks
  cases o with
  | joinRoom c scope' =>
    intro scope
    have hr : r = (w.rooms scope').isNone := congrArg Prod.fst heffect
    have hrooms : w₁.rooms = (w.join c scope').2.rooms := congrArg (fun x => World.rooms x.2) heffect
    simp only [World.announce, howed, hmade, hrooms, announces, owing, World.join, Function.update_apply]
    refine (hw scope).changed scope' horder (fun heq hnew => ?_) (fun heq hold => ?_) fun hne => ?_
    · subst heq
      rw [hr] at hnew
      have hnone : w.rooms scope' = none := Option.isNone_iff_eq_none.1 hnew
      exact ⟨none_owed (hannounced hnone), by rw [hnone]; rfl, by rw [if_pos rfl]; rfl⟩
    · subst heq
      rw [hr] at hold
      rw [if_pos rfl]
      cases hroom : w.rooms scope' with
      | none =>
        rw [hroom] at hold
        cases hold
      | some room => rfl
    · rw [if_neg (Ne.symm hne)]
  | leaveRoom c scope' =>
    intro scope
    have hr : r = w.empties c scope' := congrArg Prod.fst heffect
    have hrooms : w₁.rooms = (w.leave c scope').2.rooms := congrArg (fun x => World.rooms x.2) heffect
    simp only [World.announce, howed, hmade, hrooms, announces, owing, World.leave, Function.update_apply]
    refine (hw scope).changed scope' horder (fun heq hgone => ?_) (fun heq hleft => ?_) fun hne => ?_
    · subst heq
      rw [hr] at hgone
      have hopen : (w.rooms scope').isSome := by
        cases hroom : w.rooms scope' with
        | none =>
          rw [World.empties, hroom] at hgone
          cases hgone
        | some room => rfl
      refine ⟨none_owed (hannounced hgone), hopen, ?_⟩
      rw [if_pos rfl, without_isSome]
      rw [World.empties] at hgone
      rw [hgone, Bool.not_true, Bool.and_false]
    · subst heq
      rw [hr, World.empties] at hleft
      rw [if_pos rfl, without_isSome, hleft, Bool.not_false, Bool.and_true]
    · rw [if_neg (Ne.symm hne)]
  | leaveRooms c =>
    intro scope
    obtain ⟨hnodup, hmem, rfl⟩ := heffect
    have hnothing : w.owed i = [] := horder
    change Tracks scope (Function.update w.owed i (w.owed i ++ r.map fun scope => ⟨scope, false⟩)) (w.made scope)
      (if scope ∈ (w.client c).scopes then (w.rooms scope).bind (World.without c) else w.rooms scope).isSome
    rw [hnothing, List.nil_append]
    have hdebts : debts scope (r.map fun scope => ⟨scope, false⟩) = _ := debts_map hnodup
    by_cases hgone : scope ∈ w.emptied c
    · obtain ⟨hscope, hempties⟩ := Finset.mem_filter.1 hgone
      have hopen : (w.rooms scope).isSome := by
        cases hroom : w.rooms scope with
        | none =>
          rw [World.empties, hroom] at hempties
          cases hempties
        | some room => rfl
      rw [if_pos ((hmem scope).2 hgone)] at hdebts
      rw [if_pos hscope, without_isSome]
      rw [World.empties] at hempties
      rw [hempties, Bool.not_true, Bool.and_false]
      have htracks := hw scope
      rw [hopen] at htracks
      exact htracks.owe (none_owed (hannounced scope hgone)) hdebts
    · rw [if_neg fun hin => hgone ((hmem scope).1 hin)] at hdebts
      have hsame : ((if scope ∈ (w.client c).scopes then (w.rooms scope).bind (World.without c) else w.rooms scope)).isSome =
          (w.rooms scope).isSome := by
        split
        · rename_i hscope
          have hleft : w.empties c scope = false := by
            cases hempties : w.empties c scope with
            | false => rfl
            | true => exact absurd (Finset.mem_filter.2 ⟨hscope, hempties⟩) hgone
          rw [World.empties] at hleft
          rw [without_isSome, hleft, Bool.not_false, Bool.and_true]
        · rfl
      rw [hsame]
      exact (hw scope).keep (by rw [hdebts, hnothing]; rfl)
  | onSubscribe scope' =>
    cases heffect
    exact hw.made rfl rfl horder
  | onUnsubscribe scope' =>
    cases heffect
    exact hw.made rfl rfl horder
  | subscribed c scope => exact hplain rfl rfl (congrArg World.rooms heffect.2)
  | identity c => exact hplain rfl rfl (congrArg World.rooms heffect.2)
  | swapDropped c =>
    obtain ⟨-, rfl⟩ := heffect
    exact hplain rfl rfl rfl
  | targets scope => exact hplain rfl rfl (congrArg World.rooms heffect.2.2)
  | addConns n =>
    cases heffect
    exact hplain rfl rfl rfl
  | authenticate c user =>
    cases heffect
    exact hplain rfl rfl rfl
  | deliver c frame =>
    cases heffect
    exact hplain rfl rfl rfl
  | _ =>
    cases heffect
    exact hplain rfl rfl rfl

/-- A call makes no room empty and leaves it. -/
theorem Step.nonempty {β : Type} {o : Op β} {r : β} (h : Step i o w r w') (hw : w.rooms scope ≠ some ∅) :
    w'.rooms scope ≠ some ∅ := by
  obtain ⟨w₁, heffect, rfl⟩ := h
  change w₁.rooms scope ≠ some ∅
  cases o with
  | joinRoom c scope' =>
    rw [show w₁ = (w.join c scope').2 from congrArg Prod.snd heffect]
    exact join_nonempty hw
  | leaveRoom c scope' =>
    rw [show w₁ = (w.leave c scope').2 from congrArg Prod.snd heffect]
    exact leave_nonempty hw
  | leaveRooms c =>
    obtain ⟨-, -, rfl⟩ := heffect
    exact removeAll_nonempty hw
  | swapDropped c =>
    obtain ⟨-, rfl⟩ := heffect
    exact hw
  | subscribed c scope' =>
    obtain ⟨-, rfl⟩ := heffect
    exact hw
  | identity c =>
    obtain ⟨-, rfl⟩ := heffect
    exact hw
  | targets scope' =>
    obtain ⟨-, -, rfl⟩ := heffect
    exact hw
  | _ =>
    cases heffect
    exact hw

theorem Step.owed {β : Type} {o : Op β} {r : β} (h : Step i o w r w') :
    w'.owed = Function.update w.owed i (owing (w.owed i) o r) := by
  obtain ⟨w₁, heffect, rfl⟩ := h
  simp only [World.announce, (effect_ghost heffect).1]

end tracked

/-! ## Runs -/

/-- What each goroutine has left to run makes the callbacks that it owes. -/
def Dutiful (p : Pool Op World Unit) : Prop :=
  ∀ i, match p.session i with
    | none => p.shared.owed i = []
    | some m => m.Follows duties (fun owed _ => owed = []) (p.shared.owed i)

section runs

variable {p p' : Pool Op World Unit} {M : Machine Op World} {h : Hub} {i : Nat} {m : Proc Unit}

theorem Dutiful.busy (hp : Dutiful p) (hi : p.session i = some m) :
    m.Follows duties (fun owed _ => owed = []) (p.shared.owed i) := by
  have hm := hp i
  rwa [hi] at hm

theorem Dutiful.unoccupied (hp : Dutiful p) (hi : p.session i = none) : p.shared.owed i = [] := by
  have hm := hp i
  rwa [hi] at hm

/-- A goroutine that moves leaves the duties of the others. -/
theorem Dutiful.move (hp : Dutiful p) {m : Option (Proc Unit)} {w : World} {owed : List Callback}
    (howed : w.owed = Function.update p.shared.owed i owed)
    (hi : match m with
      | none => owed = []
      | some m => m.Follows duties (fun owed _ => owed = []) owed) : Dutiful (p.move i m w) := by
  intro j
  rcases eq_or_ne j i with rfl | hj
  · rw [Pool.move_session_self, Pool.move_shared, howed, Function.update_self]
    exact hi
  · rw [Pool.move_session_ne _ _ _ hj, Pool.move_shared, howed, Function.update_of_ne hj]
    exact hp j

theorem Dutiful.finished (hp : Dutiful p) {a : Unit} (hi : p.session i = some (.ret a)) :
    Dutiful (p.move i none p.shared) := by
  have howes : p.shared.owed i = [] := hp.busy hi
  have hstay : p.shared.owed = Function.update p.shared.owed i [] := by rw [← howes, Function.update_eq_self]
  exact hp.move (m := none) hstay rfl

/-- A goroutine is never cut off between the lock and the callback. -/
theorem Dutiful.next (hp : Dutiful p) {C : Nat → {β : Type} → Op β → World → Prop}
    (hnext : Pool.NextWhole (machine.given C) (Program h) p p') : Dutiful p' := by
  obtain ⟨hnext, hwhole⟩ := hnext
  cases hnext with
  | @start i m hi hm =>
    have howes := hp.unoccupied hi
    have hstay : p.shared.owed = Function.update p.shared.owed i [] := by rw [← howes, Function.update_eq_self]
    exact hp.move (m := some m) hstay (program_discharges hm)
  | @exec i β o k r w' hi hs => exact hp.move (m := some (k r)) hs.2.owed ((hp.busy hi).2 r)
  | finish hi => exact hp.finished hi
  | @crash i m hi =>
    obtain ⟨a, rfl⟩ := hwhole i m hi (Pool.move_session_self ..)
    exact hp.finished hi
  | env hs =>
    cases hs
    exact hp

/-- The callbacks of every scope track its room, and no room is empty. -/
structure OnTrack (p : Pool Op World Unit) : Prop where
  dutiful : Dutiful p
  tracked : p.shared.Tracked
  nonempty : ∀ scope, p.shared.rooms scope ≠ some ∅

theorem World.Starts.onTrack {w : World} (hstart : w.Starts) : OnTrack (.idle w) where
  dutiful i := congrFun hstart.owed i
  tracked scope := by
    rw [Pool.idle_shared, hstart.made, hstart.owed, hstart.rooms]
    exact ⟨trivial, .inl ⟨fun _ => rfl, rfl⟩⟩
  nonempty scope := by
    rw [Pool.idle_shared, hstart.rooms]
    exact nofun

theorem OnTrack.next (hp : OnTrack p) (hnext : Pool.NextWhole (machine.given Announced) (Program h) p p') : OnTrack p' := by
  have hdutiful := hp.dutiful.next hnext
  cases hnext.1 with
  | start _ _ => exact ⟨hdutiful, hp.tracked, hp.nonempty⟩
  | exec hi hs =>
    have horder := (hp.dutiful.busy hi).1
    exact ⟨hdutiful, hs.2.tracked horder hs.1 hp.tracked, fun scope => hs.2.nonempty (hp.nonempty scope)⟩
  | finish _ => exact ⟨hdutiful, hp.tracked, hp.nonempty⟩
  | crash _ => exact ⟨hdutiful, hp.tracked, hp.nonempty⟩
  | env hs =>
    cases hs
    exact ⟨hdutiful, hp.tracked, hp.nonempty⟩

end runs

/-- Where no room comes up or goes while a callback for it is owed, the callbacks of every scope alternate, and
whenever no goroutine is busy the last has subscribed exactly the rooms that have a member. -/
theorem callbacks_track_rooms (h : Hub) {w : World} (hstart : w.Starts) {past : List (Pool Op World Unit)}
    {p : Pool Op World Unit}
    (hrun : Run (Pool.NextWhole (machine.given Announced) (Program h)) (.idle w) past p) (scope : String) :
    Alternating (p.shared.made scope) ∧
      ((∀ i, p.session i = none) → ((p.shared.made scope).head? = some true ↔ ∃ c, p.shared.IsIn c scope)) := by
  have hp : OnTrack p := hrun.invariant hstart.onTrack fun _ _ hp hnext => hp.next hnext
  refine ⟨(hp.tracked scope).alternating, fun hquiet => ?_⟩
  have hlast : (p.shared.made scope).headD false = (p.shared.rooms scope).isSome := by
    cases (hp.tracked scope).last with
    | inl hsettled => exact hsettled.2
    | inr howes =>
      obtain ⟨i, howes, -⟩ := howes
      rw [hp.dutiful.unoccupied (hquiet i)] at howes
      cases howes
  have hmember : (p.shared.rooms scope).isSome ↔ ∃ c, p.shared.IsIn c scope := by
    constructor
    · intro hroom
      obtain ⟨room, hroom⟩ := Option.isSome_iff_exists.1 hroom
      have hne : room ≠ ∅ := fun hempty => hp.nonempty scope (by rw [hroom, hempty])
      obtain ⟨c, hc⟩ := Finset.nonempty_iff_ne_empty.2 hne
      exact ⟨c, room, hroom, hc⟩
    · rintro ⟨c, room, hroom, -⟩
      rw [hroom]
      rfl
  rw [← hmember, ← hlast]
  cases p.shared.made scope with
  | nil => simp
  | cons cb made => simp

/-! ### One goroutine at a time -/

/-- Only goroutine `i` makes calls. -/
def Alone (i j : Nat) {β : Type} (_ : Op β) (_ : World) : Prop := j = i

/-- A goroutine that changes rooms in order, while no other owes anything, finds nothing owed. -/
theorem announced_alone {w : World} {i : Nat} {β : Type} {o : Op β} (hothers : ∀ j, j ≠ i → w.owed j = [])
    (horder : InOrder (w.owed i) o) : Announced i o w := by
  have hnone : w.owed i = [] → ∀ scope, ¬ w.Owes scope := by
    rintro howes scope ⟨j, cb, hcb, -⟩
    have hj : w.owed j = [] := (eq_or_ne j i).elim (fun heq => heq ▸ howes) (hothers j)
    rw [hj] at hcb
    cases hcb
  cases o with
  | joinRoom c scope => exact fun _ => hnone horder scope
  | leaveRoom c scope => exact fun _ => hnone horder scope
  | leaveRooms c => exact fun scope _ => hnone horder scope
  | _ => trivial

/-- A goroutine alone announces every room before the next. -/
theorem run_alone {h : Hub} {w : World} (hstart : w.Starts) {i : Nat} {past : List (Pool Op World Unit)}
    {p : Pool Op World Unit} (hrun : Run (Pool.NextWhole (machine.given (Alone i)) (Program h)) (.idle w) past p) :
    Run (Pool.NextWhole (machine.given Announced) (Program h)) (.idle w) past p ∧ Dutiful p ∧
      ∀ j, j ≠ i → p.shared.owed j = [] := by
  induction hrun with
  | start => exact ⟨.start, hstart.onTrack.dutiful, fun j _ => congrFun hstart.owed j⟩
  | next _ hnext ih =>
    obtain ⟨hrun, hdutiful, hothers⟩ := ih
    have hdutiful' := hdutiful.next hnext
    obtain ⟨hnext, hwhole⟩ := hnext
    cases hnext with
    | start hi hm => exact ⟨hrun.next ⟨.start hi hm, hwhole⟩, hdutiful', hothers⟩
    | @exec i' β o k r w' hi hs =>
      obtain ⟨rfl, hs⟩ := hs
      have hannounced := announced_alone hothers (hdutiful.busy hi).1
      refine ⟨hrun.next ⟨.exec hi ⟨hannounced, hs⟩, hwhole⟩, hdutiful', fun j hj => ?_⟩
      rw [Pool.move_shared, hs.owed, Function.update_of_ne hj]
      exact hothers j hj
    | finish hi => exact ⟨hrun.next ⟨.finish hi, hwhole⟩, hdutiful', hothers⟩
    | crash hi => exact ⟨hrun.next ⟨.crash hi, hwhole⟩, hdutiful', hothers⟩
    | env hs =>
      cases hs
      exact ⟨hrun.next ⟨.env rfl, hwhole⟩, hdutiful', hothers⟩

def joining (i c n : Nat) : Turns := [.start i (join c "task:1"), .calls i n]

def leaving (i c n : Nat) : Turns := [.start i (leave c "task:1"), .calls i n]

section turns

variable {M : Machine Op World}

theorem joining_legal (i c n : Nat) : (joining i c n).Forall (Turn.Legal M (Program openHub)) := ⟨.join c _, trivial⟩

theorem leaving_legal (i c n : Nat) : (leaving i c n).Forall (Turn.Legal M (Program openHub)) := ⟨.leave c _, trivial⟩

end turns

/-- Two clients join and the first leaves, one after the other. -/
def oneByOne : Turns := joining 0 0 2 ++ [.finish 0] ++ (joining 0 1 1 ++ [.finish 0]) ++ (leaving 0 0 1 ++ [.finish 0])

theorem callbacks_track_rooms_one : ∃ past p,
    Run (Pool.NextWhole (machine.given Announced) (Program openHub)) (.idle emptyWorld) past p ∧
    (p.shared.made "task:1" = [true] ∧ p.shared.rooms "task:1" = some {1}) ∧
      Alternating (p.shared.made "task:1") ∧ ((∀ i, p.session i = none) →
        ((p.shared.made "task:1").head? = some true ↔ ∃ c, p.shared.IsIn c "task:1")) := by
  have hplay : (Pool.play (guarded (fun i _ _ _ => i == 0) execs) oneByOne (.idle emptyWorld)).any fun p =>
      p.shared.made "task:1" = [true] ∧ p.shared.rooms "task:1" = some {1} := by decide
  have hlegal : oneByOne.Forall (Turn.Legal (machine.given (Alone 0)) (Program openHub)) := by
    refine List.forall_append.2 ⟨List.forall_append.2 ⟨List.forall_append.2 ⟨joining_legal 0 0 2, trivial⟩, ?_⟩, ?_⟩
    · exact List.forall_append.2 ⟨joining_legal 0 1 1, trivial⟩
    · exact List.forall_append.2 ⟨leaving_legal 0 0 1, trivial⟩
  have hguard : ∀ i {β : Type} (o : Op β) (w : World), (i == 0) → Alone 0 i o w := fun i _ _ _ hi => eq_of_beq hi
  obtain ⟨past, p, hrun, hcheck⟩ := Pool.play_any_whole (guarded_step hguard execs_step) hlegal hplay
  have hannounced := (run_alone emptyWorld_starts hrun).1
  exact ⟨past, p, hannounced, of_decide_eq_true hcheck, callbacks_track_rooms openHub emptyWorld_starts hannounced "task:1"⟩

/-! ### A leave that announces itself late -/

/-- Client 0 leaves the room empty, client 1 comes into a new one and announces it, then client 0 announces the old one's end. -/
def announcedLate : Turns :=
  joining 0 0 2 ++ [.finish 0] ++ leaving 0 0 1 ++ (joining 1 1 2 ++ [.finish 1]) ++ [.calls 0 1, .finish 0]

theorem announcedLate_legal : announcedLate.Forall (Turn.Legal machine (Program openHub)) := by
  refine List.forall_append.2 ⟨List.forall_append.2 ⟨List.forall_append.2 ⟨List.forall_append.2 ⟨joining_legal 0 0 2, ?_⟩, ?_⟩, ?_⟩, ?_⟩
  · exact trivial
  · exact leaving_legal 0 0 1
  · exact List.forall_append.2 ⟨joining_legal 1 1 2, trivial⟩
  · exact ⟨trivial, trivial⟩

/-- The relay is unsubscribed last from a room with a client. -/
theorem announcedLate_run : ∃ past p, Run (Pool.NextWhole machine (Program openHub)) (.idle emptyWorld) past p ∧
    p.shared.made "task:1" = [false, true, true] ∧ p.shared.IsIn 1 "task:1" := by
  have hplay : (Pool.play execs announcedLate (.idle emptyWorld)).any fun p =>
      p.shared.made "task:1" = [false, true, true] ∧ p.shared.rooms "task:1" = some {1} := by decide
  obtain ⟨past, p, hrun, hcheck⟩ := Pool.play_any_whole execs_step announcedLate_legal hplay
  obtain ⟨hmade, hroom⟩ := of_decide_eq_true hcheck
  exact ⟨past, p, hrun, hmade, _, hroom, Finset.mem_singleton_self 1⟩

theorem unsubscribed_with_member : ¬ ∀ (h : Hub) (w : World), w.Starts → ∀ past (p : Pool Op World Unit),
    Run (Pool.NextWhole machine (Program h)) (.idle w) past p → ∀ scope, Alternating (p.shared.made scope) ∧
      ((∀ i, p.session i = none) → ((p.shared.made scope).head? = some true ↔ ∃ c, p.shared.IsIn c scope)) := by
  intro h
  obtain ⟨past, p, hrun, hmade, -⟩ := announcedLate_run
  have halternating := (h openHub emptyWorld emptyWorld_starts past p hrun "task:1").1
  rw [hmade] at halternating
  cases halternating.2.1

end Ploykit.Wsx

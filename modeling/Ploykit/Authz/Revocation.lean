import Ploykit.Authz.Cache

/-!
# Replaced permission sets

A decision that begins after a write has returned goes by what the row has said since that
write, where no session stores what has been replaced since it looked it up.
-/

namespace Ploykit.Authz

open Lib Webx

/-- What each session has last decided by was looked up after the writes that had returned when it began. -/
def Immediate (w : World) : Prop := ∀ i u, (w.seen i).used = some u → u.began ≤ u.version

/-- What is stored is what the row says, or no write that has replaced it has dropped the entries yet. -/
def StoresCurrent (i : Nat) : {β : Type} → Op β → World → Prop
  | _, .cachePut key perms _, w => w.table.permsFor key = .ok perms ∨ w.settled key.row ≤ (w.seen i).looked
  | _, _, _ => True

/-- Before anything is counted. -/
structure World.Starts (w : World) : Prop where
  settled : w.settled = fun _ => 0
  seen : w.seen = fun _ => {}

/-! ## The invariant -/

/-- What a session has seen is not ahead of the writes, and its decisions are not behind what had been settled. -/
structure Seen.Counted (writes settled : RowKey → Nat) (s : Seen) : Prop where
  wrote : ∀ row n, s.wrote = some (row, n) → n ≤ writes row
  began : ∀ row, s.began row ≤ settled row
  used : ∀ u, s.used = some u → u.began ≤ u.version

/-- No entry is behind what has been settled. -/
structure Counted (w : World) : Prop where
  settled : ∀ row, w.settled row ≤ w.writes row
  cached : ∀ key e, w.cache key = some e → w.settled key.row ≤ e.version
  seen : ∀ i, (w.seen i).Counted w.writes w.settled

section counted

variable {w : World} {i : Nat} {key : RoleKey} {perms : Option (List Permission)}

theorem World.Starts.counted (h : w.Starts) : Counted w where
  settled row := by rw [h.settled]; exact Nat.zero_le _
  cached key e _ := by rw [h.settled]; exact Nat.zero_le _
  seen i := by
    rw [h.seen]
    exact ⟨fun row n hwrote => (nomatch hwrote), fun row => Nat.zero_le _, fun u hused => (nomatch hused)⟩

/-- Counts only grow. -/
theorem Seen.Counted.mono {writes writes' settled settled' : RowKey → Nat} {s : Seen} (h : s.Counted writes settled)
    (hwrites : ∀ row, writes row ≤ writes' row) (hsettled : ∀ row, settled row ≤ settled' row) : s.Counted writes' settled' where
  wrote row n hwrote := (h.wrote row n hwrote).trans (hwrites row)
  began row := (h.began row).trans (hsettled row)
  used := h.used

/-- One session sees more. -/
theorem counted_see {writes settled : RowKey → Nat} {s : Seen} (hs : s.Counted writes settled)
    (h : ∀ j, (w.seen j).Counted writes settled) (j : Nat) : (Function.update w.seen i s j).Counted writes settled := by
  by_cases hj : j = i
  · subst hj
    rwa [Function.update_self]
  · rw [Function.update_of_ne hj]
    exact h j

theorem Counted.begin (h : Counted w) (key : RoleKey) : Counted (w.begin i key) where
  settled := h.settled
  cached := h.cached
  seen := by
    refine counted_see ⟨(h.seen i).wrote, fun row => le_refl _, fun u hu => ?_⟩ h.seen
    obtain ⟨e, he, rfl⟩ := Option.map_eq_some_iff.1 hu
    exact h.cached key e (Option.filter_eq_some_iff.1 he).1

theorem Counted.look (h : Counted w) : Counted (w.look i key perms) where
  settled := h.settled
  cached := h.cached
  seen := by
    refine counted_see ⟨(h.seen i).wrote, (h.seen i).began, fun u hu => ?_⟩ h.seen
    cases hu
    exact ((h.seen i).began key.row).trans (h.settled key.row)

theorem Counted.put {ttl : Duration} (h : Counted w) (hstores : StoresCurrent i (.cachePut key perms ttl) w) :
    Counted (w.put i key perms ttl) where
  settled := h.settled
  cached key' e he := by
    simp only [World.put] at he
    by_cases hkey : key' = key
    · subst hkey
      rw [Function.update_self] at he
      cases he
      -- what the row says is as late as it can be
      change w.settled key'.row ≤ if _ then _ else _
      split
      · exact h.settled key'.row
      · rename_i hold
        exact hstores.resolve_left hold
    · rw [Function.update_of_ne hkey] at he
      exact h.cached key' e he
  seen := h.seen

theorem le_count {count : RowKey → Nat} {row row' : RowKey} {n : Nat} (h : count row ≤ n) :
    count row' ≤ Function.update count row n row' := by
  by_cases hrow : row' = row
  · subst hrow
    rwa [Function.update_self]
  · rw [Function.update_of_ne hrow]

theorem Counted.write (h : Counted w) (row : RowKey) (table : RoleTable) : Counted (w.write i row table) := by
  have hmore : ∀ row', w.writes row' ≤ Function.update w.writes row (w.writes row + 1) row' := fun row' => le_count (Nat.le_succ _)
  have hseen := fun j => (h.seen j).mono hmore fun row => le_refl (w.settled row)
  refine ⟨fun row' => (h.settled row').trans (hmore row'), h.cached, counted_see ⟨fun row' n hwrote => ?_, (hseen i).began, (hseen i).used⟩ hseen⟩
  cases hwrote
  exact (Function.update_self row _ w.writes).ge

/-- What the session has written in the workspace is settled, and nothing else. -/
theorem settled_invalidate (w : World) (i : Nat) (workspaceID : String) (row : RowKey) :
    (w.invalidate i workspaceID).settled row = w.settled row ∨ ∃ n, (w.seen i).wrote = some (row, n) ∧
      row.1 = workspaceID ∧ (w.invalidate i workspaceID).settled row = max (w.settled row) n := by
  cases hwrote : (w.seen i).wrote with
  | none =>
    have hsame : (w.invalidate i workspaceID).settled = w.settled := by simp only [World.invalidate, hwrote]
    exact .inl (congrFun hsame row)
  | some written =>
    obtain ⟨row', n⟩ := written
    simp only [World.invalidate, hwrote]
    split
    · rename_i hws
      by_cases hrow : row = row'
      · subst hrow
        exact .inr ⟨n, rfl, hws, Function.update_self ..⟩
      · exact .inl (Function.update_of_ne hrow ..)
    · exact .inl rfl

theorem Counted.invalidate (h : Counted w) (workspaceID : String) : Counted (w.invalidate i workspaceID) := by
  have hmore : ∀ row, w.settled row ≤ (w.invalidate i workspaceID).settled row := by
    intro row
    rcases settled_invalidate w i workspaceID row with hsame | ⟨n, -, -, hmax⟩
    · exact hsame.ge
    · exact hmax ▸ le_max_left _ _
  constructor
  · intro row
    rcases settled_invalidate w i workspaceID row with hsame | ⟨n, hwrote, -, hmax⟩
    · exact hsame ▸ h.settled row
    · exact hmax ▸ max_le (h.settled row) ((h.seen i).wrote row n hwrote)
  · intro key e he
    simp only [World.invalidate] at he
    split at he
    · cases he
    -- an entry that is left is of another workspace
    rename_i hother
    rcases settled_invalidate w i workspaceID key.row with hsame | ⟨n, -, hws, -⟩
    · exact hsame ▸ h.cached key e he
    · exact absurd (.inr hws) hother
  · have hseen := fun j => (h.seen j).mono (fun row => le_refl (w.writes row)) hmore
    exact counted_see ⟨fun row n hwrote => (nomatch hwrote), (hseen i).began, (hseen i).used⟩ hseen

/-- Every call keeps the counts in order, where none stores what has been replaced. -/
theorem Step.counted {β : Type} {o : Op β} {r : β} {w' : World} (h : Step i o w r w') (hstores : StoresCurrent i o w)
    (hw : Counted w) : Counted w' := by
  cases o with
  | cacheGet key =>
    obtain ⟨-, rfl⟩ := h
    exact hw.begin key
  | permsFor key =>
    rcases h with ⟨-, rfl⟩ | ⟨perms, -, -, rfl⟩
    · exact hw
    · exact hw.look
  | cachePut key perms ttl =>
    cases h
    exact hw.put hstores
  | principalIn actor workspaceID =>
    cases h
    exact hw
  | upsertRolePerms workspaceID role perms =>
    rcases h with ⟨-, rfl⟩ | rfl
    · exact hw
    · exact hw.write _ _
  | deleteRolePerms workspaceID role =>
    rcases h with ⟨-, rfl⟩ | rfl
    · exact hw
    · exact hw.write _ _
  | invalidateCache workspaceID =>
    cases h
    exact hw.invalidate workspaceID

end counted

/-! ## Runs -/

/-- In every run in which nothing is stored that has been replaced, a decision goes by nothing that
had been replaced when it began. -/
theorem revoked_at_once (a : CachedAuthorizer) {w : World} (hstart : w.Starts) {past : List (Pool Op World Unit)}
    {p : Pool Op World Unit} (h : Run (Pool.Next (machine.given StoresCurrent) (Program a)) (.idle w) past p) :
    Immediate p.shared := by
  have hcounted := h.invariant (I := fun p => Counted p.shared) hstart.counted fun p p' hp hstep => by
    cases hstep with
    | start _ _ => exact hp
    | exec _ hs => exact hs.2.counted hs.1 hp
    | finish _ => exact hp
    | crash _ => exact hp
    | env hs =>
      obtain ⟨clock, -, rfl⟩ := hs
      exact ⟨hp.settled, hp.cached, hp.seen⟩
  exact fun i u hused => (hcounted.seen i).used u hused

/-! ### A lookup that is overtaken -/

theorem freshWorld_starts : freshWorld.Starts := ⟨rfl, rfl⟩

abbrev Turns := List (Turn Op World Unit)

/-- The session asks whether "eve" may read bills, for so many calls. -/
def asks (i n : Nat) : Turns := [.start i (plainAuthorizer.canIn eve "billing:read" >>= fun _ => pure ()), .calls i n]

/-- The session takes all permissions from the role. -/
def takesAll (i : Nat) : Turns :=
  [.start i (plainAuthorizer.setRolePerms ann "ws" "member" [] >>= fun _ => pure ()), .calls i 3]

variable {M : Machine Op World}

theorem asks_legal (i n : Nat) : (asks i n).Forall (Turn.Legal M (Program plainAuthorizer)) :=
  ⟨.canIn eve "billing:read", trivial⟩

theorem takesAll_legal (i : Nat) : (takesAll i).Forall (Turn.Legal M (Program plainAuthorizer)) :=
  ⟨.setRolePerms ann "ws" "member" [], trivial⟩

def execs (i : Nat) {β : Type} (o : Op β) (w : World) : Option (β × World) := some (w.exec i o)

theorem execs_step (i : Nat) {β : Type} (o : Op β) (w : World) (r : β) (w' : World) (h : execs i o w = some (r, w')) :
    machine.step i o w r w' := by
  have hstep := w.exec_step i o
  rw [Option.some.inj h] at hstep
  exact hstep

def storesCurrent (i : Nat) : {β : Type} → Op β → World → Bool
  | _, .cachePut key perms _, w =>
    (w.table.permsFor key).toOption = some perms ∨ w.settled key.row ≤ (w.seen i).looked
  | _, _, _ => true

theorem storesCurrent_holds (i : Nat) {β : Type} (o : Op β) (w : World) (h : storesCurrent i o w) : StoresCurrent i o w := by
  cases o with
  | cachePut key perms ttl =>
    refine (of_decide_eq_true h).imp_left fun hsome => ?_
    cases hlooked : w.table.permsFor key with
    | ok perms' =>
      rw [hlooked] at hsome
      exact congrArg Except.ok (Option.some.inj hsome)
    | error err =>
      rw [hlooked] at hsome
      cases hsome
  | _ => trivial

/-- A decision after the permissions have been taken. -/
def askedAfter : Turns := takesAll 1 ++ asks 0 3

theorem askedAfter_legal : askedAfter.Forall (Turn.Legal M (Program plainAuthorizer)) :=
  List.forall_append.2 ⟨takesAll_legal 1, asks_legal 0 3⟩

theorem revoked_at_once_asked : ∃ past p,
    Run (Pool.Next (machine.given StoresCurrent) (Program plainAuthorizer)) (.idle freshWorld) past p ∧
    ((p.shared.seen 0).used.any fun u => u.perms = some [] ∧ u.began = 1) ∧ Immediate p.shared := by
  have hplay : (Pool.play (guarded storesCurrent execs) askedAfter (.idle freshWorld)).any fun p =>
      (p.shared.seen 0).used.any fun u => u.perms = some [] ∧ u.began = 1 := by decide +kernel
  obtain ⟨past, p, hrun, hcheck⟩ := Pool.play_any (guarded_step storesCurrent_holds execs_step) askedAfter_legal hplay
  exact ⟨past, p, hrun, hcheck, revoked_at_once plainAuthorizer freshWorld_starts hrun⟩

/-- A decision has looked the role up before, and stores what it has found after the write has returned;
the next one begins then. -/
def overtaken : Turns := asks 0 2 ++ takesAll 1 ++ [.calls 0 1] ++ asks 2 1

theorem overtaken_legal : overtaken.Forall (Turn.Legal M (Program plainAuthorizer)) := by
  refine List.forall_append.2 ⟨List.forall_append.2 ⟨List.forall_append.2 ⟨asks_legal 0 2, takesAll_legal 1⟩, ?_⟩, asks_legal 2 1⟩
  trivial

theorem replaced_comes_back : ¬ ∀ (a : CachedAuthorizer) (w : World), w.Starts → ∀ past (p : Pool Op World Unit),
    Run (Pool.Next machine (Program a)) (.idle w) past p → Immediate p.shared := by
  intro h
  have hplay : (Pool.play execs overtaken (.idle freshWorld)).any fun p =>
      (p.shared.seen 2).used.any fun u => u.perms = none ∧ u.version < u.began := by decide +kernel
  obtain ⟨past, p, hrun, hcheck⟩ := Pool.play_any execs_step overtaken_legal hplay
  obtain ⟨u, hused, hlate⟩ := Option.any_eq_true _ _ |>.1 hcheck
  simp only [decide_eq_true_eq] at hlate
  exact absurd (h plainAuthorizer freshWorld freshWorld_starts past p hrun 2 u hused) (not_le.2 hlate.2)

end Ploykit.Authz

import Ploykit.Accounts.Knowledge

/-!
# The last administrator

Nobody disables or demotes the own account, and administrators delete no other administrator.
But the guards have read who is one before the statement is executed, and everyone may delete the own account.
-/

namespace Ploykit.Accounts

open Lib hiding Time
open Webx

/-- The user is an active platform administrator. -/
def World.Administered (w : World) (id : String) : Prop :=
  ∃ u, w.users.get id = some u ∧ u.status = .active ∧ u.isPlatformAdmin

/-- The statement takes the user's place as an active administrator, if there is one to take. -/
def Query.Deposes (id : String) : {β : Type} → Query β → Prop
  | _, .setUserStatus _ userID status => userID = id ∧ status ≠ .active
  | _, .setPlatformAdmin _ userID isAdmin => userID = id ∧ isAdmin = false
  | _, .softDeleteUserTx _ userID _ => userID = id
  | _, _ => False

/-- Who disables, demotes or deletes an active administrator still is one, or there is a third. Administrators delete the
own account where there is another. -/
def Query.Spares : {β : Type} → Query β → World → Prop
  | _, .setUserStatus actor userID .disabled, w =>
    w.Administered userID → w.Administered actor.userID ∨ ∃ id, id ≠ userID ∧ w.Administered id
  | _, .setPlatformAdmin actor userID false, w =>
    w.Administered userID → w.Administered actor.userID ∨ ∃ id, id ≠ userID ∧ w.Administered id
  | _, .softDeleteUserTx actor userID _, w => w.Administered userID →
    actor.userID ≠ userID ∧ w.Administered actor.userID ∨ ∃ id, id ≠ userID ∧ w.Administered id
  | _, _, _ => True

section step

variable {cfg : Config} {w : World} {β : Type} {q : Query β} {id : String}

theorem World.Administered.update (h : w.Administered id) {userID : String} {f : User → User} {hf : ∀ u, (f u).id = u.id}
    (hkeeps : userID = id → ∀ u, u.status = .active → u.isPlatformAdmin → (f u).status = .active ∧ (f u).isPlatformAdmin) :
    (w.updateUser userID f hf).Administered id := by
  obtain ⟨u, hu, hactive, hrole⟩ := h
  by_cases hid : userID = id
  · exact ⟨f u, by simp [World.updateUser, hid, hu], hkeeps hid u hactive hrole⟩
  · exact ⟨u, by rwa [World.updateUser, Keyed.get_update_ne hf (Ne.symm hid)], hactive, hrole⟩

theorem World.Administered.insert (h : w.Administered id) {u : User} : (w.insertUser u).2.Administered id := by
  obtain ⟨v, hv, hrest⟩ := h
  refine ⟨v, ?_, hrest⟩
  simp only [World.insertUser]
  split
  · rename_i hfresh
    have hother : u.id ≠ id := by
      intro heq
      rw [← heq, hfresh.1] at hv
      cases hv
    rwa [Keyed.get_insert, if_neg hother]
  · exact hv

/-- Whom the statement does not depose stays an active administrator. -/
theorem Query.administered_exec (h : w.Administered id) (hq : ¬ q.Deposes id) : (q.exec cfg w).2.Administered id := by
  cases q with
  | upsertUserByEmail newID email now =>
    simp only [exec]
    split
    · exact h
    · exact h.insert
  | createUserWithPassword => exact h.insert
  | setPasswordHash userID passwordHash now =>
    simp only [exec]
    split
    · exact h
    · exact h.update fun _ _ hactive hrole => ⟨hactive, hrole⟩
  | setEmailVerified => exact h.update fun _ _ hactive hrole => ⟨hactive, hrole⟩
  | setUserStatus actor userID status =>
    simp only [exec]
    split
    · exact h
    · refine h.update fun hid _ _ hrole => ⟨?_, hrole⟩
      by_contra hstatus
      exact hq ⟨hid, hstatus⟩
  | setPlatformAdmin actor userID isAdmin =>
    simp only [exec]
    split
    · exact h
    · refine h.update fun hid _ hactive _ => ⟨hactive, ?_⟩
      cases isAdmin with
      | true => rfl
      | false => exact absurd ⟨hid, rfl⟩ hq
  | softDeleteUserTx actor userID now =>
    simp only [exec]
    split
    · exact h
    · split
      · obtain ⟨u, hu, hrest⟩ := h
        have hother : id ≠ userID := fun hid => hq hid.symm
        exact ⟨u, World.get_softDelete.trans ((if_neg hother).trans hu), hrest⟩
      · exact h
  | _ =>
    obtain ⟨u, hu, hrest⟩ := h
    refine ⟨u, ?_, hrest⟩
    rwa [exec_users (by simp [touchesUsers])]

/-- There is one whom the statement does not depose. -/
theorem Query.spared {γ : Progress} (h : w.Administered id) (hspares : q.Spares w) (hasks : γ.Asks q) :
    ∃ id, w.Administered id ∧ ¬ q.Deposes id := by
  by_cases hdeposes : q.Deposes id
  · cases q with
    | setUserStatus actor userID status =>
      obtain ⟨rfl, hstatus⟩ := hdeposes
      obtain ⟨-, hdeleted, hother⟩ := hasks
      cases status with
      | active => exact absurd rfl hstatus
      | deleted => exact absurd rfl hdeleted
      | disabled =>
        rcases hspares h with hactor | ⟨id, hne, hid⟩
        · exact ⟨actor.userID, hactor, fun hd => hother rfl hd.1.symm⟩
        · exact ⟨id, hid, fun hd => hne hd.1.symm⟩
    | setPlatformAdmin actor userID isAdmin =>
      obtain ⟨rfl, rfl⟩ := hdeposes
      rcases hspares h with hactor | ⟨id, hne, hid⟩
      · exact ⟨actor.userID, hactor, fun hd => hasks.2 rfl hd.1.symm⟩
      · exact ⟨id, hid, fun hd => hne hd.1.symm⟩
    | softDeleteUserTx actor userID now =>
      obtain rfl : userID = id := hdeposes
      rcases hspares h with ⟨hne, hactor⟩ | ⟨id, hne, hid⟩
      · exact ⟨actor.userID, hactor, fun hd => hne (Eq.symm hd)⟩
      · exact ⟨id, hid, fun hd => hne (Eq.symm hd)⟩
    | _ => exact hdeposes.elim
  · exact ⟨id, h, hdeposes⟩

end step

/-! ## Runs -/

/-- Whatever is requested, where administrators are spared. -/
abbrev sparingRuns (svc : Service) : Pool Op World (Except Err Reply) → Pool Op World (Except Err Reply) → Prop :=
  Pool.Next (machineGiven svc Query.Spares) (Program svc fun _ => True)

theorem administrator_remains (svc : Service) {w : World} (hw : ∃ id, w.Administered id)
    {past : List (Pool Op World (Except Err Reply))} {p : Pool Op World (Except Err Reply)}
    (h : Run (sparingRuns svc) (.idle w) past p) : ∃ id, p.shared.Administered id := by
  refine known_invariant (I := fun w => ∃ id, w.Administered id) h hw ?_ fun w t _ hw => hw
  intro β q w' r γ _ hspares hasks _ hw'
  obtain ⟨id, hid⟩ := hw'
  obtain ⟨id', hid', hdeposes⟩ := Query.spared hid hspares hasks
  exact ⟨id', Query.administered_exec hid' hdeposes⟩

/-! ### Two administrators -/

/-- An administrator with a session. -/
def admin (id : String) : User := { id, email := id ++ "@example.com", isPlatformAdmin := true }

def adminSession (token id : String) : Session := { annSession with token, userID := id }

def adminWorld : World where
  users := ⟨[admin "ann", admin "bea"], by decide⟩
  sessions := ⟨[adminSession "s" "ann", adminSession "t" "bea"], by decide⟩
  pats := .empty
  links := .empty
  providers := .empty
  owners := []
  clock := 0
  history := []

theorem adminWorld_administered : adminWorld.Administered "ann" := ⟨admin "ann", by decide, rfl, rfl⟩

/-- A request of the session. -/
def asks (i : Nat) (token : String) (a : Action) (n : Nat) : Turns := serves i (.request (.session token) a) n

/-- Who disables still is an active administrator. -/
def stillAdmin {β : Type} (q : Query β) (w : World) : Bool :=
  match q with
  | .setUserStatus actor _ _ => (w.users.get actor.userID).any fun u => u.status = .active ∧ u.isPlatformAdmin
  | .setPlatformAdmin _ _ _ => false
  | .softDeleteUserTx _ _ _ => false
  | _ => true

theorem stillAdmin_spares {β : Type} (q : Query β) (w : World) (h : stillAdmin q w) : q.Spares w := by
  cases q with
  | setUserStatus actor userID status =>
    cases status with
    | disabled =>
      intro _
      obtain ⟨u, hu, hadmin⟩ := (Option.any_eq_true _ _).1 h
      exact .inl ⟨u, hu, of_decide_eq_true hadmin⟩
    | _ => trivial
  | setPlatformAdmin | softDeleteUserTx => cases h
  | _ => trivial

theorem administrator_remains_ann : ∃ past p, Run (sparingRuns plainService) (.idle adminWorld) past p ∧
    p.shared.users.get "bea" = some { admin "bea" with status := .disabled } ∧ ∃ id, p.shared.Administered id := by
  have hlegal : (asks 0 "s" (.setUserStatus "bea" "disabled") 5).Forall
      (Turn.Legal (machineGiven plainService Query.Spares) (Program plainService fun _ => True)) := serves_legal trivial
  have hplay : (Pool.play (guarded (fun _ _ o w => o.passes stillAdmin w) (execs noIdP))
      (asks 0 "s" (.setUserStatus "bea" "disabled") 5) (.idle adminWorld)).any fun p =>
        p.shared.users.get "bea" = some { admin "bea" with status := .disabled } := by decide
  obtain ⟨past, p, hrun, hcheck⟩ := Pool.play_any (guarded_execs stillAdmin_spares) hlegal hplay
  exact ⟨past, p, hrun, of_decide_eq_true hcheck, administrator_remains plainService ⟨_, adminWorld_administered⟩ hrun⟩

/-- Both have passed the guard when the first disables the second. -/
def disableEachOther : Turns :=
  asks 0 "s" (.setUserStatus "bea" "disabled") 3 ++ asks 1 "t" (.setUserStatus "ann" "disabled") 3 ++
    [.calls 0 2, .calls 1 2]

theorem no_administrator_left : ¬ ∀ (svc : Service) (w : World), (∃ id, w.Administered id) →
    ∀ past (p : Pool Op World (Except Err Reply)),
      Run (Pool.Next (machine svc) (Program svc fun _ => True)) (.idle w) past p → ∃ id, p.shared.Administered id := by
  intro h
  have hlegal : disableEachOther.Forall (Turn.Legal (machine plainService) (Program plainService fun _ => True)) :=
    List.forall_append.2 ⟨List.forall_append.2 ⟨serves_legal trivial, serves_legal trivial⟩, trivial, trivial⟩
  have hplay : (Pool.play (execs noIdP) disableEachOther (.idle adminWorld)).any fun p =>
      p.shared.users.rows.all fun u => u.status ≠ .active := by decide
  obtain ⟨past, p, hrun, hcheck⟩ := Pool.play_any execs_step hlegal hplay
  obtain ⟨id, u, hu, hactive, -⟩ := h plainService adminWorld ⟨_, adminWorld_administered⟩ past p hrun
  exact absurd hactive (of_decide_eq_true (List.all_eq_true.1 hcheck u (Keyed.mem_of_get hu)))

end Ploykit.Accounts

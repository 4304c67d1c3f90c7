import Ploykit.Workspace.Owners

/-!
# Privileges of members who are not owners

Sessions of members and admins leave the owners of a workspace as they are. A role
change and a transfer ask whether the actor is an owner; a removal does not, and an admin
who carries `members:remove` removes owners too.
-/

namespace Ploykit.Workspace

open Lib Protocol
open Authz (Permission)

/-- The user is an active owner of the workspace. -/
def Db.isOwner (db : Db) (ws user : String) : Bool := (db.members.active ws user).any fun m => m.role = .owner

/-- No owner is removed by somebody else. -/
def sparesOwners : {β : Type} → Stmt β → Db → Bool
  | _, .softRemoveMember scan _ user removedBy _, db =>
    removedBy = user ∨ (db.members.get scan.id).all fun m => m.role ≠ .owner
  | _, _, _ => true

/-- The actor is neither an owner nor a platform administrator, in the workspace of the request. -/
def PlainIn (db : Db) (actor : Webx.Principal) (ws : String) : Prop :=
  actor.isPlatformAdmin = false ∧ db.isOwner ws actor.userID = false ∧ (actor.workspaceID = ws → actor.role ≠ "owner")

/-- Who makes the request, and of which workspace. The others do not ask for a role. -/
def Call.subject : Call → Option (Webx.Principal × String)
  | .updateMemberRole actor ws _ _ => some (actor, ws)
  | .removeMember actor ws _ => some (actor, ws)
  | .leave actor ws => some (actor, ws)
  | .transferOwnership actor ws _ => some (actor, ws)
  | .invite actor ws _ _ _ => some (actor, ws)
  | .revokeInvitation actor ws _ => some (actor, ws)
  | .createShareLink actor ws _ _ _ _ _ => some (actor, ws)
  | .revokeShareLink actor ws _ => some (actor, ws)
  | .declineInvitation .. => none
  | .acceptInvitation .. => none
  | .redeemShareLink .. => none

/-- Requests by members and admins. -/
def ByPlain (svc : Service) (db : Db) (m : Script (TxOp Stmt PgErr) (Except (Failure PgErr Err) Unit)) : Prop :=
  ∃ c : Call, m = c.program svc ∧ ∀ actor ws, c.subject = some (actor, ws) → PlainIn db actor ws

/-! ## The owners of a database -/

section owners

variable {db db' db₀ : Db} {ws user : String} {m : MemberRow}

/-- The owners are the same. -/
def SameOwners (db₀ db : Db) : Prop := ∀ ws user, db.isOwner ws user = db₀.isOwner ws user

theorem isOwner_iff : db.isOwner ws user ↔ ∃ m ∈ db.members.rows, m.activeAt ws user ∧ m.role = .owner := by
  refine (Option.any_eq_true _ _).trans ⟨fun ⟨m, hm, hrole⟩ => ?_, fun ⟨m, hrow, hat, hrole⟩ => ?_⟩
  · obtain ⟨hrow, hat⟩ := Members.active_eq_some.1 hm
    exact ⟨m, hrow, hat, of_decide_eq_true hrole⟩
  · exact ⟨m, Members.active_eq_some.2 ⟨hrow, hat⟩, decide_eq_true hrole⟩

theorem isOwner_congr (h : ∀ ws user, (∃ m ∈ db.members.rows, m.activeAt ws user ∧ m.role = .owner) ↔
    ∃ m ∈ db'.members.rows, m.activeAt ws user ∧ m.role = .owner) : SameOwners db db' := by
  intro ws user
  refine Bool.eq_iff_iff.2 ?_
  rw [isOwner_iff, isOwner_iff]
  exact (h ws user).symm

/-- Who is no owner by the row is none by the role. -/
theorem role_ne_owner (h : db.isOwner ws user = false) (hrow : m ∈ db.members.rows) (hat : m.activeAt ws user) :
    m.role ≠ .owner := by
  intro hrole
  have howner : db.isOwner ws user := isOwner_iff.2 ⟨m, hrow, hat, hrole⟩
  rw [h] at howner
  cases howner

/-- A row that is changed is not an owner's, before and after. -/
theorem sameOwners_change {id : String} {f : MemberRow → MemberRow} (hf : MemberRow.Keeps f)
    (hm : db.members.get id = some m) (hrole : m.role ≠ .owner) (hrole' : (f m).role ≠ .owner) :
    SameOwners db { db with members := db.members.change id f hf } := by
  have hsame : ∀ m' ∈ db.members.rows, m'.id = id → m' = m := by
    rintro m' hrow rfl
    have hget : some m' = some m := (Keyed.get_of_mem hrow).symm.trans hm
    cases hget
    rfl
  refine isOwner_congr fun ws user => ⟨fun ⟨m', hrow, hat, howner⟩ => ?_, fun ⟨m', hrow, hat, howner⟩ => ?_⟩
  · have hne : m'.id ≠ id := fun hid => hrole (hsame m' hrow hid ▸ howner)
    exact ⟨m', (Members.mem_change hf).2 ⟨m', hrow, if_neg hne⟩, hat, howner⟩
  · obtain ⟨m₀, hrow₀, heq⟩ := (Members.mem_change hf).1 hrow
    split at heq
    · rename_i hid
      rw [hsame m₀ hrow₀ hid] at heq
      exact (hrole' (heq ▸ howner)).elim
    · exact ⟨m', heq ▸ hrow₀, hat, howner⟩

theorem stable_sameOwners : Stable (SameOwners db₀) where
  members db db' hmembers _ h := by
    intro ws user
    unfold Db.isOwner
    rw [hmembers]
    exact h ws user
  join := by
    intro db m hrole h ws user
    have hinsert : SameOwners db { db with members := db.members.insert m } := by
      refine isOwner_congr fun ws user => ⟨fun ⟨m', hrow, hrest⟩ => ?_, fun ⟨m', hrow, hat, howner⟩ => ?_⟩
      · exact ⟨m', Members.mem_insert.2 (.inl hrow), hrest⟩
      · obtain hold | ⟨-, rfl⟩ := Members.mem_insert.1 hrow
        · exact ⟨m', hold, hat, howner⟩
        · exact (hrole howner).elim
    exact (hinsert ws user).trans (h ws user)

end owners

/-! ## Requests -/

section requests

variable {db₀ : Db} {svc : Service} {actor who : Webx.Principal} {ws : String}

abbrev sparing (db₀ : Db) : Protocol (store.checked sparesOwners PgErr.unavailable) Unit :=
  keepers sparesOwners (SameOwners db₀)

/-- The answer about a member who is not an owner. -/
theorem yields_getMember {user : String} : Yields (sparing db₀) (Action.query (.getMember ws user) : Act (Option Member))
    fun r => ∀ target, r = some target → (target.role = .owner ↔ db₀.isOwner ws user) := by
  refine yields_select (fun _ _ he => he) fun db held o hI ho => ?_
  cases ho
  rintro target htarget
  obtain ⟨⟨target', status⟩, hfound, rfl⟩ := Option.map_eq_some_iff.1 htarget
  obtain ⟨m, hm, hjoined⟩ := Option.bind_eq_some_iff.1 hfound
  obtain ⟨u, -, heq⟩ := Option.map_eq_some_iff.1 hjoined
  cases heq
  rw [← hI ws user]
  unfold Db.isOwner
  rw [hm]
  simp

theorem yields_principalIn (h : PlainIn db₀ actor ws) :
    Yields (sparing db₀) (Service.principalIn actor ws) fun r => ∀ who, r = some who → who.role ≠ "owner" := by
  obtain ⟨hadmin, howner, hrole⟩ := h
  refine yields_ite (fun hat => yields_pure ?_) fun _ => yields_ite (fun hplatform => ?_) fun _ => ?_
  · intro who heq
    cases heq
    exact hrole hat.1
  · rw [hadmin] at hplatform
    cases hplatform
  · refine yields_bind (yields_attempt yields_getMember) fun r hr => ?_
    match r with
    | .ok (some me) =>
      refine yields_pure fun who heq => ?_
      cases heq
      have hme : me.role ≠ .owner := fun hme => by
        have howns := (hr _ rfl me rfl).1 hme
        rw [howner] at howns
        cases howns
      intro hname
      cases hrole : me.role <;> simp_all [Role.name]
    | .ok none => exact yields_pure fun who heq => nomatch heq
    | .error f => exact yields_pure fun who heq => nomatch heq

theorem yields_permitted {perm : Permission} (h : PlainIn db₀ actor ws) :
    Yields (sparing db₀) (svc.permitted actor ws perm) fun r => ∀ who, r = some who → who.role ≠ "owner" := by
  refine yields_bind (yields_principalIn h) fun r hr => ?_
  cases r with
  | none => exact yields_pure hr
  | some p =>
    refine yields_bind (kept_authz reading_keepers).yields fun ok _ => yields_pure fun who heq => ?_
    split at heq
    · cases heq
      exact hr _ rfl
    · cases heq

/-- An owner is not demoted by another role. -/
theorem yields_checkDemotion {target : Member} (hadmin : actor.isPlatformAdmin = false) (hwho : who.role ≠ "owner") :
    Yields (sparing db₀) (Service.checkDemotion actor who ws target) fun _ => target.role ≠ .owner :=
  yields_ite (fun _ => yields_ite (fun _ => yields_throw) fun hnot => (hnot ⟨by simp [hadmin], hwho⟩).elim) fun hne => yields_pure hne

theorem assignable_parse {role : String} {r : Role} (h : assignableRole role) (hr : Role.parse role = some r) :
    r ≠ .owner := by
  rintro rfl
  have hname := List.find?_some hr
  rcases of_decide_eq_true h with rfl | rfl <;> simp [Role.name] at hname

theorem kept_setRolePlain {user newRole : String} (hassignable : assignableRole newRole) (huser : db₀.isOwner ws user = false) :
    Kept (sparing db₀) (Repo.updateMemberRole ws user newRole) := by
  refine kept_guarded fun scan => kept_effect fun db w hI _ he => ?_
  obtain ⟨m, r, hm, hat, -, hr, rfl⟩ := he
  have hrole := role_ne_owner ((hI ws user).trans huser) (Keyed.mem_of_get hm) hat
  have hid : m.id = scan.id := Keyed.key_of_get hm
  have hchange := sameOwners_change (MemberRow.keeps_withRole r) (hid ▸ hm) hrole (assignable_parse hassignable hr)
  exact fun ws user => (hchange ws user).trans (hI ws user)

theorem kept_softRemovePlain {user : String} {now : Time} (hactor : db₀.isOwner ws actor.userID = false) :
    Kept (sparing db₀) (Repo.softRemoveMember ws user actor.userID now) := by
  refine kept_guarded fun scan => kept_effect fun db w hI hspared he => ?_
  obtain ⟨m, by', hm, hat, -, rfl⟩ := he
  have hrole : m.role ≠ .owner := by
    rcases of_decide_eq_true hspared with rfl | hrow
    · exact role_ne_owner ((hI ws actor.userID).trans hactor) (Keyed.mem_of_get hm) hat
    · rw [hm] at hrow
      exact of_decide_eq_true hrow
  have hid : m.id = scan.id := Keyed.key_of_get hm
  have hchange := sameOwners_change (MemberRow.keeps_remove ws user now by') (hid ▸ hm) hrole (by
    unfold MemberRow.remove
    split <;> exact hrole)
  exact fun ws user => (hchange ws user).trans (hI ws user)

theorem kept_updateMemberRolePlain {targetUserID newRole : String} (h : PlainIn db₀ actor ws) :
    Kept (sparing db₀) (svc.updateMemberRole actor ws targetUserID newRole) := by
  refine kept_bind_yields (yields_permitted h) fun r hr => ?_
  cases r with
  | none => exact kept_refuse
  | some who =>
    refine kept_ite (fun _ => kept_refuse) fun hassignable => kept_bind_yields yields_getMember fun r htarget => ?_
    cases r with
    | none => exact kept_refuse
    | some target =>
      refine kept_ite (fun _ => kept_refuse) fun _ => ?_
      refine kept_bind_yields (yields_checkDemotion h.1 (hr who rfl)) fun _ hrole => kept_translate ?_
      have huser : db₀.isOwner ws targetUserID = false := Bool.eq_false_iff.2 fun howns => hrole ((htarget _ rfl).2 howns)
      exact kept_setRolePlain (Classical.not_not.1 hassignable) huser

theorem kept_transferPlain {newOwnerUserID : String} (h : PlainIn db₀ actor ws) :
    Kept (sparing db₀) (Service.transferOwnership actor ws newOwnerUserID) := by
  have hfrom : Yields (sparing db₀) (Service.transferFrom actor ws) fun _ => False := by
    refine yields_bind yields_getMember fun me hme => yields_ite (fun hany => ?_) fun _ => yields_ite (fun _ => yields_throw) ?_
    · obtain ⟨m, rfl, hrole⟩ := (Option.any_eq_true _ _).1 hany
      have howns := (hme m rfl).1 (of_decide_eq_true hrole)
      rw [h.2.1] at howns
      cases howns
    · intro hadmin
      exact (hadmin (by simp [h.1])).elim
  exact kept_bind_yields hfrom fun _ hfalse => hfalse.elim

theorem kept_callPlain (c : Call) (h : ∀ actor ws, c.subject = some (actor, ws) → PlainIn db₀ actor ws) :
    Kept (sparing db₀) (c.exec svc) := by
  cases c with
  | updateMemberRole actor ws targetUserID newRole => exact kept_updateMemberRolePlain (h _ _ rfl)
  | removeMember actor ws targetUserID => exact kept_removeMember fun now => kept_softRemovePlain (h _ _ rfl).2.1
  | leave actor ws => exact kept_leave fun now => kept_softRemovePlain (h _ _ rfl).2.1
  | transferOwnership actor ws newOwnerUserID => exact kept_transferPlain (h _ _ rfl)
  | _ => exact Call.Gentle.kept trivial stable_sameOwners

end requests

/-- Members and admins end no ownership and make no owner, where no owner is removed by somebody else. -/
theorem ownership_kept (svc : Service) (db : Db)
    {past : List (Pool (TxOp Stmt PgErr) (Store.Sys Db Resource Write) (Except (Failure PgErr Err) Unit))}
    {p : Pool (TxOp Stmt PgErr) (Store.Sys Db Resource Write) (Except (Failure PgErr Err) Unit)}
    (h : Run (Pool.Next ((store.machine Env).given (store.passes sparesOwners)) (ByPlain svc db)) (.idle (.quiet db)) past p)
    (ws user : String) : p.shared.db.isOwner ws user = db.isOwner ws user := by
  have hprogs : ∀ m, ByPlain svc db m → ∃ c : Call, m = c.program svc ∧ Kept (sparing db) (c.exec svc) := by
    rintro m ⟨c, hc, hplain⟩
    exact ⟨c, hc, kept_callPlain c hplain⟩
  exact run_keeps stable_sameOwners hprogs (fun _ _ => rfl) h ws user

/-! ### Removals by an admin -/

def removal (target : String) : Call := .removeMember { userID := "eve" } "ws" target

variable {M : Machine (TxOp Stmt PgErr) Db}

theorem removal_legal (n : Nat) (target : String) :
    (begins 0 n (removal target)).Forall (Turn.Legal M (ByPlain plainService sharedDb)) := by
  refine ⟨⟨removal target, rfl, ?_⟩, trivial⟩
  intro actor ws heq
  cases heq
  exact ⟨rfl, by decide, fun h => by simp at h⟩

theorem ownership_kept_removed : ∃ past p,
    Run (Pool.Next ((store.machine Env).given (store.passes sparesOwners)) (ByPlain plainService sharedDb))
      (.idle (.quiet sharedDb)) past p ∧ p.shared.db.members.active "ws" "max" = none ∧
      ∀ ws user, p.shared.db.isOwner ws user = sharedDb.isOwner ws user := by
  have hplay : (Pool.play (store.autoExec sparesOwners) (begins 0 6 (removal "max")) (.idle sharedDb)).any fun p =>
      p.shared.members.active "ws" "max" = none := by decide
  obtain ⟨past, p, hrun, hcheck⟩ :=
    Store.play_autocommit (removal_legal 6 "max") (fun db => db.members.active "ws" "max" = none) hplay
  exact ⟨past, p, hrun, of_decide_eq_true hcheck, ownership_kept plainService sharedDb hrun⟩

/-- An admin removes one of the two owners. -/
theorem owner_removed : ¬ ∀ (svc : Service) (db : Db)
    (past : List (Pool (TxOp Stmt PgErr) (Store.Sys Db Resource Write) (Except (Failure PgErr Err) Unit)))
    (p : Pool (TxOp Stmt PgErr) (Store.Sys Db Resource Write) (Except (Failure PgErr Err) Unit)),
    Run (Pool.Next (store.machine Env) (ByPlain svc db)) (.idle (.quiet db)) past p →
    ∀ ws user, p.shared.db.isOwner ws user = db.isOwner ws user := by
  intro h
  have hplay : (Pool.play (store.autoExec fun _ _ => true) (begins 0 7 (removal "bob")) (.idle sharedDb)).any fun p =>
      ¬ p.shared.isOwner "ws" "bob" := by decide
  obtain ⟨past, p, hrun, hcheck⟩ :=
    Store.play_autocommit (removal_legal 7 "bob") (fun db => ¬ db.isOwner "ws" "bob") hplay
  have hplain := hrun.mono fun p p' hnext => hnext.of_given
  have hbob := h plainService sharedDb past p hplain "ws" "bob"
  exact of_decide_eq_true hcheck (hbob.trans (by decide))

end Ploykit.Workspace

import Ploykit.Lib.Invariant
import Ploykit.Workspace.Invariants

/-!
# The last owner

The guard counts the other owners in the snapshot of its UPDATE, and locks only the row
that it updates. Two owners who leave lock different rows, and each may still count the
other.
-/

namespace Ploykit.Workspace

open Lib Protocol

/-- Every workspace has an active owner. -/
def Owned (db : Db) : Prop := ∀ ws ∈ db.workspaces.rows, db.activeOwners ws.id ≠ []

instance (db : Db) : Decidable (Owned db) := inferInstanceAs (Decidable (∀ ws ∈ _, _))

/-- Where the guard has let the row pass, it would still do so by a count made now. -/
def Db.guardsNow (db : Db) (scan : Scan) (ws user : String) : Bool :=
  (db.members.get scan.id).all fun m =>
    m.activeAt ws user ∧ lastOwnerGuard m.role scan.otherOwners → lastOwnerGuard m.role (db.otherOwners ws user)

/-- The count of a guarded update is not stale when it has the lock of its row. -/
def guardCurrent : {β : Type} → Stmt β → Db → Bool
  | _, .updateMemberRole scan ws user _, db => db.guardsNow scan ws user
  | _, .softRemoveMember scan ws user _ _, db => db.guardsNow scan ws user
  | _, _, _ => true

/-! ## Owners -/

section owners

variable {db : Db} {ws user : String} {m : MemberRow}

theorem mem_activeOwners : m ∈ db.activeOwners ws ↔ m ∈ db.members.rows ∧ m.workspaceID = ws ∧ m.role = .owner ∧ m.isActive := by
  simp [Db.activeOwners]

theorem exists_other (h : 0 < db.otherOwners ws user) : ∃ o ∈ db.activeOwners ws, o.userID ≠ user := by
  obtain ⟨o, ho⟩ := List.exists_mem_of_length_pos h
  obtain ⟨hmem, hne⟩ := List.mem_filter.1 ho
  exact ⟨o, hmem, of_decide_eq_true hne⟩

/-- The row that is changed is not the last owner. -/
theorem owned_change {id : String} {f : MemberRow → MemberRow} (hf : MemberRow.Keeps f) (h : Owned db)
    (hother : ∀ m, db.members.get id = some m → m.isActive → m.role = .owner →
      ∃ o ∈ db.activeOwners m.workspaceID, o.id ≠ id) :
    Owned { db with members := db.members.change id f hf } := by
  have hstays : ∀ {ws o}, o ∈ db.activeOwners ws → o.id ≠ id →
      o ∈ Db.activeOwners { db with members := db.members.change id f hf } ws := by
    intro ws o ho hne
    obtain ⟨hrow, hrest⟩ := mem_activeOwners.1 ho
    exact mem_activeOwners.2 ⟨(Members.mem_change hf).2 ⟨o, hrow, if_neg hne⟩, hrest⟩
  intro ws hws
  obtain ⟨o, ho⟩ := List.exists_mem_of_ne_nil _ (h ws hws)
  by_cases hid : o.id = id
  · obtain ⟨hrow, hworkspace, hrole, hactive⟩ := mem_activeOwners.1 ho
    have hget : db.members.get id = some o := hid ▸ Keyed.get_of_mem hrow
    obtain ⟨o', ho', hne⟩ := hother o hget hactive hrole
    rw [hworkspace] at ho'
    exact List.ne_nil_of_mem (hstays ho' hne)
  · exact List.ne_nil_of_mem (hstays ho hid)

theorem stable_owned : Stable Owned where
  members db db' hmembers hworkspaces h := by
    intro ws hws
    rw [hworkspaces] at hws
    have howner := h ws hws
    unfold Db.activeOwners at howner ⊢
    rw [hmembers]
    exact howner
  join := by
    intro db m _ h ws hws
    obtain ⟨o, ho⟩ := List.exists_mem_of_ne_nil _ (h ws hws)
    obtain ⟨hrow, hrest⟩ := mem_activeOwners.1 ho
    exact List.ne_nil_of_mem (mem_activeOwners.2 ⟨Members.mem_insert.2 (.inl hrow), hrest⟩)

/-- What a guarded update may do to its row. -/
theorem owned_guarded {scan : Scan} {f : MemberRow → MemberRow} (hf : MemberRow.Keeps f) (h : Owned db)
    (hm : db.members.get scan.id = some m) (hat : m.activeAt ws user) (hguard : lastOwnerGuard m.role scan.otherOwners)
    (hnow : db.guardsNow scan ws user) : Owned { db with members := db.members.change m.id f hf } := by
  refine owned_change hf h fun m' hm' hactive hrole => ?_
  have hid : scan.id = m.id := (Keyed.key_of_get hm).symm
  rw [← hid, hm] at hm'
  cases hm'
  unfold Db.guardsNow at hnow
  rw [hm] at hnow
  have hcount := of_decide_eq_true hnow ⟨hat, hguard⟩
  have hothers : 0 < db.otherOwners ws user := (of_decide_eq_true hcount).resolve_left fun hne => hne hrole
  obtain ⟨o, ho, hne⟩ := exists_other hothers
  obtain ⟨-, hkey⟩ := of_decide_eq_true hat
  obtain ⟨rfl, rfl⟩ := Prod.mk.inj hkey
  refine ⟨o, ho, fun heq => hne ?_⟩
  obtain ⟨hrow, -⟩ := mem_activeOwners.1 ho
  have hsame : some o = some m := (Keyed.get_of_mem hrow).symm.trans (heq ▸ hid ▸ hm)
  cases hsame
  rfl

end owners

/-! ## Transfers -/

section transfer

variable {held : Resource → Bool} {db : Db} {ws user id : String} {o : Outcome Resource Write Nat}

theorem eval_promote (h : eval (.promote id ws user) held db = .ok o) :
    o = reads 0 ∨ ∃ m, db.members.get id = some m ∧ m.activeAt ws user ∧ m.role ≠ .owner ∧
      o = writes 1 (.setRole m.id .owner) := by
  simp only [eval] at h
  split at h
  · cases h
    exact .inl rfl
  · rename_i m hfound
    cases h
    obtain ⟨hm, hcheck⟩ := Option.filter_eq_some_iff.1 hfound
    obtain ⟨hat, hrole⟩ := of_decide_eq_true hcheck
    exact .inr ⟨m, hm, hat, hrole, rfl⟩

theorem eval_demote (h : eval (.demote ws user) held db = .ok o) :
    o = reads 0 ∨ ∃ m, db.members.active ws user = some m ∧ o = writes 1 (.setRole m.id .member) := by
  simp only [eval] at h
  split at h
  · cases h
    exact .inl rfl
  · rename_i m hfound
    cases h
    exact .inr ⟨m, (Option.filter_eq_some_iff.1 hfound).1, rfl⟩

/-- The transaction has promoted the row `a`, which it has locked. -/
def Promoted (ws toUserID : String) (a : MemberRow) (t : Option (Tx Resource Write)) (db : Db) : Prop :=
  t = some ⟨[.member a.id], [.setRole a.id .owner]⟩ ∧ db.members.get a.id = some a ∧ a.activeAt ws toUserID ∧
    a.role ≠ .owner

/-- It has also demoted the row `b`. -/
def Demoted (ws : String) (a b : MemberRow) (t : Option (Tx Resource Write)) (db : Db) : Prop :=
  t = some ⟨[.member a.id, .member b.id], [.setRole a.id .owner, .setRole b.id .member]⟩ ∧
    db.members.get a.id = some a ∧ a.workspaceID = ws ∧ a.isActive ∧ a.role ≠ .owner ∧
    db.members.get b.id = some b ∧ b.workspaceID = ws ∧ b.id ≠ a.id

/-- The target is an owner when the one before is not any more. -/
theorem Demoted.owned {a b : MemberRow} {tx : Tx Resource Write} (h : Demoted ws a b (some tx) db) (howned : Owned db) :
    Owned ((store.checked guardCurrent PgErr.unavailable).applyAll db tx.writes) := by
  obtain ⟨htx, ha, hws, hactive, hrole, hb, hbws, hne⟩ := h
  cases htx
  have hpromoted : Owned (apply db (.setRole a.id .owner)) := by
    refine owned_change (MemberRow.keeps_withRole .owner) howned fun m hm _ howner => ?_
    rw [ha] at hm
    cases hm
    exact (hrole howner).elim
  refine owned_change (MemberRow.keeps_withRole .member) hpromoted fun m hm _ _ => ?_
  have hget := Members.get_change_ne (t := db.members) (MemberRow.keeps_withRole .owner) hne
  have hm : db.members.get b.id = some m := hget.symm.trans hm
  rw [hb] at hm
  cases hm
  refine ⟨a.withRole .owner, mem_activeOwners.2 ⟨?_, hws.trans hbws.symm, rfl, hactive⟩, hne.symm⟩
  exact (Members.mem_change (MemberRow.keeps_withRole .owner)).2 ⟨a, Keyed.mem_of_get ha, if_pos rfl⟩

variable {fromUserID toUserID : String}

theorem awp_promote {done : List Unit} :
    (keepers guardCurrent Owned).awp (fun _ _ _ => True)
      (Repo.mapErr do
        match ← Action.query (.scanPromotable ws toUserID) with
        | none => return 0
        | some id => Action.query (.promote id ws toUserID))
      (fun n _ t db => n = 0 ∨ ∃ a, Promoted ws toUserID a t db) done (some Tx.empty) db := by
  refine awp_mapErr (fun _ _ _ _ h => h) (awp_bind (awp_query (fun e => trivial) fun db₁ _ => ⟨trivial, fun _ held o ho => ?_⟩))
  have hread : o.locks = [] ∧ o.writes = [] := by
    cases (Store.eval_checked ho).2
    exact ⟨rfl, rfl⟩
  obtain ⟨found, locks, ws'⟩ := o
  obtain ⟨rfl, rfl⟩ := hread
  cases found with
  | none => exact awp_pure (.inl rfl)
  | some id =>
    refine awp_query (fun e => trivial) fun db₂ _ => ⟨trivial, fun _ held o ho => ?_⟩
    have heval : eval (.promote id ws toUserID) held db₂ = .ok o := (Store.eval_checked ho).2
    obtain rfl | ⟨m, hm, hat, hrole, rfl⟩ := eval_promote heval
    · exact .inl rfl
    · have hid : m.id = id := Keyed.key_of_get hm
      exact .inr ⟨m, rfl, hid ▸ hm, hat, hrole⟩

theorem awp_demote {a : MemberRow} {t : Option (Tx Resource Write)} {done : List Unit} (hne : toUserID ≠ fromUserID)
    (h : Promoted ws toUserID a t db) :
    (keepers guardCurrent Owned).awp (fun _ _ _ => True) (Repo.mapErr (Action.query (.demote ws fromUserID)))
      (fun n _ t db => n = 0 ∨ ∃ b, Demoted ws a b t db) done t db := by
  obtain ⟨rfl, ha, hat, hrole⟩ := h
  obtain ⟨hactive, hkey⟩ := of_decide_eq_true hat
  refine awp_mapErr (fun _ _ _ _ h => h) (awp_query (fun e => trivial) fun db₁ hrely => ⟨trivial, fun _ held o ho => ?_⟩)
  have ha₁ : db₁.members.get a.id = some a := (hrely.locked _ rfl (.member a.id) (.head _)).symm.trans ha
  have heval : eval (.demote ws fromUserID) held (apply db₁ (.setRole a.id .owner)) = .ok o := (Store.eval_checked ho).2
  obtain rfl | ⟨b, hb, rfl⟩ := eval_demote heval
  · exact .inl rfl
  · -- the row is another one than the promoted one, so it is as it was
    obtain ⟨hrow, hbat⟩ := Members.active_eq_some.1 hb
    obtain ⟨-, hbkey⟩ := of_decide_eq_true hbat
    obtain ⟨b', hb', heq⟩ := (Members.mem_change (MemberRow.keeps_withRole .owner)).1 hrow
    have hother : b'.id ≠ a.id := by
      intro hid
      rw [if_pos hid] at heq
      have hsame : some b' = some a := (Keyed.get_of_mem hb').symm.trans (hid ▸ ha₁)
      cases hsame
      subst heq
      have hkeys := hkey.symm.trans hbkey
      exact hne (Prod.mk.inj hkeys).2
    rw [if_neg hother] at heq
    subst heq
    exact .inr ⟨b', rfl, ha₁, (Prod.mk.inj hkey).1, hactive, hrole, Keyed.get_of_mem hb', (Prod.mk.inj hbkey).1, hother⟩

theorem kept_transferTx (hne : toUserID ≠ fromUserID) :
    Kept (keepers guardCurrent Owned) (Repo.runInTx (Repo.transferOwnershipTx ws fromUserID toUserID)) := by
  intro done db
  refine awp_inTx (fun e => rfl) fun db₁ _ => awp_bind (awp_bind ?_)
  refine awp_fail_mono (awp_mono ?_ awp_promote) fun _ _ _ _ => rfl
  intro n done t db h
  refine awp_ite (fun _ => awp_throw rfl) fun hn => awp_bind ?_
  obtain ⟨a, ha⟩ := h.resolve_left hn
  refine awp_fail_mono (awp_mono ?_ (awp_demote hne ha)) fun _ _ _ _ => rfl
  intro n done t db h
  refine awp_ite (fun _ => awp_throw rfl) fun hn => awp_pure ?_
  obtain ⟨b, hb⟩ := h.resolve_left hn
  obtain ⟨rfl, hga, hrest⟩ := hb
  refine awp_bind (awp_commit (fun e => rfl) fun db₂ hrely => ?_)
  have hga₂ := (hrely.locked _ rfl (.member a.id) (.head _)).symm.trans hga
  have hgb₂ := (hrely.locked _ rfl (.member b.id) (.tail _ (.head _))).symm.trans hrest.2.2.2.1
  have hdemoted : Demoted ws a b _ db₂ := ⟨rfl, hga₂, hrest.1, hrest.2.1, hrest.2.2.1, hgb₂, hrest.2.2.2.2⟩
  exact ⟨_, .commit (l := ()) (hdemoted.owned hrely.inv), fun e => rfl, awp_pure fun db'' _ => rfl⟩

end transfer

/-! ## Requests -/

variable {svc : Service}

theorem kept_guardedUpdate {ws user : String} {update : Scan → Stmt Nat}
    (hupdate : ∀ scan db w, Owned db → guardCurrent (update scan) db → Effect db (update scan) w → Owned (apply db w)) :
    Kept (keepers guardCurrent Owned) (Repo.guarded ws user update) :=
  kept_guarded fun scan => kept_effect fun db w => hupdate scan db w

theorem kept_softRemove {ws user removedBy : String} {now : Time} :
    Kept (keepers guardCurrent Owned) (Repo.softRemoveMember ws user removedBy now) := by
  refine kept_guardedUpdate fun scan db w howned hnow he => ?_
  obtain ⟨m, by', hm, hat, hguard, rfl⟩ := he
  exact owned_guarded (MemberRow.keeps_remove ws user now by') howned hm hat hguard hnow

theorem kept_setRole {ws user newRole : String} :
    Kept (keepers guardCurrent Owned) (Repo.updateMemberRole ws user newRole) := by
  refine kept_guardedUpdate fun scan db w howned hnow he => ?_
  obtain ⟨m, r, hm, hat, hguard, -, rfl⟩ := he
  exact owned_guarded (MemberRow.keeps_withRole r) howned hm hat hguard hnow

theorem kept_transferOwnership {actor : Webx.Principal} {ws newOwnerUserID : String} :
    Kept (keepers guardCurrent Owned) (Service.transferOwnership actor ws newOwnerUserID) := by
  refine kept_bind kept_transferFrom fun fromUserID => kept_select_bind (fun _ _ he => he) fun db held o _ ho => ?_
  cases ho
  match hfound : db.member ws newOwnerUserID with
  | none =>
    simp only [reads]
    exact kept_refuse
  | some (target, userStatus) =>
    simp only [reads]
    have htarget : target.userID = newOwnerUserID := by
      obtain ⟨m, hm, hjoined⟩ := Option.bind_eq_some_iff.1 hfound
      obtain ⟨u, -, heq⟩ := Option.map_eq_some_iff.1 hjoined
      cases heq
      obtain ⟨-, hat⟩ := Members.active_eq_some.1 hm
      exact (Prod.mk.inj (of_decide_eq_true hat).2).2
    refine kept_ite (fun _ => kept_refuse) fun hne => kept_ite (fun _ => kept_refuse) fun _ => ?_
    refine kept_ite (fun _ => kept_refuse) fun _ => kept_translate (kept_transferTx ?_)
    exact htarget ▸ hne

theorem kept_call (c : Call) : Kept (keepers guardCurrent Owned) (c.exec svc) := by
  cases c with
  | updateMemberRole actor ws targetUserID newRole => exact kept_updateMemberRole kept_setRole
  | removeMember actor ws targetUserID => exact kept_removeMember fun now => kept_softRemove
  | leave actor ws => exact kept_leave fun now => kept_softRemove
  | transferOwnership actor ws newOwnerUserID => exact kept_transferOwnership
  | _ => exact Call.Gentle.kept trivial stable_owned

/-- Every workspace keeps an owner, where no guarded update goes by a stale count. -/
theorem owners_remain (svc : Service) {db : Db} (howned : Owned db)
    {past : List (Pool (TxOp Stmt PgErr) (Store.Sys Db Resource Write) (Except (Failure PgErr Err) Unit))}
    {p : Pool (TxOp Stmt PgErr) (Store.Sys Db Resource Write) (Except (Failure PgErr Err) Unit)}
    (h : Run (Pool.Next ((store.machine Env).given (store.passes guardCurrent)) (Program svc)) (.idle (.quiet db)) past p) :
    Owned p.shared.db :=
  run_keeps stable_owned (fun _ ⟨c, hc⟩ => ⟨c, hc, kept_call c⟩) howned h

/-! ### Two owners who leave -/

def plainService : Service := { toLower := id, hashShareCode := id }

/-- The row with which a member of the workspace "ws" starts. -/
def memberRow (user : String) (role : Role) : MemberRow :=
  { id := user, workspaceID := "ws", userID := user, role, createdAt := 0 }

/-- A workspace with the owners "ann" and "bob", the admin "eve" and the member "max". -/
def sharedDb : Db where
  workspaces := ⟨[{ id := "ws", slug := "ws", name := "ws", createdAt := 0 }], by decide⟩
  members := ⟨⟨[memberRow "ann" .owner, memberRow "bob" .owner, memberRow "eve" .admin, memberRow "max" .member], by decide⟩,
    by decide⟩
  invitations := .empty
  shareLinks := .empty
  users user := if user ∈ ["ann", "bob", "eve", "max"] then some { email := user, status := .active } else none
  overrides _ := none
  clock := 1

abbrev Sessions := List (Turn (TxOp Stmt PgErr) Db (Except (Failure PgErr Err) Unit))

/-- The request of session `i` gets as far as its `n`-th statement. -/
def begins (i n : Nat) (c : Call) : Sessions := [.start i (c.program plainService), .calls i n]

variable {M : Machine (TxOp Stmt PgErr) Db}

theorem begins_legal (i n : Nat) (c : Call) : (begins i n c).Forall (Turn.Legal M (Program plainService)) :=
  ⟨⟨c, rfl⟩, trivial⟩

/-- One owner leaves after the other one. -/
def leavesInTurn : Sessions := begins 0 5 (.leave { userID := "ann" } "ws") ++ begins 1 2 (.leave { userID := "bob" } "ws")

theorem leavesInTurn_legal : leavesInTurn.Forall (Turn.Legal M (Program plainService)) :=
  List.forall_append.2 ⟨begins_legal 0 5 _, begins_legal 1 2 _⟩

theorem owners_remain_left : ∃ past p,
    Run (Pool.Next ((store.machine Env).given (store.passes guardCurrent)) (Program plainService)) (.idle (.quiet sharedDb))
      past p ∧ (p.shared.db.activeOwners "ws").length = 1 ∧ Owned p.shared.db := by
  have hplay : (Pool.play (store.autoExec guardCurrent) leavesInTurn (.idle sharedDb)).any fun p =>
      (p.shared.activeOwners "ws").length = 1 := by decide
  obtain ⟨past, p, hrun, hcheck⟩ :=
    Store.play_autocommit leavesInTurn_legal (fun db => (db.activeOwners "ws").length = 1) hplay
  exact ⟨past, p, hrun, of_decide_eq_true hcheck, owners_remain plainService (by decide) hrun⟩

/-- Both have counted the other one before either is removed. -/
def leaveTogether : Sessions :=
  begins 0 4 (.leave { userID := "ann" } "ws") ++ begins 1 5 (.leave { userID := "bob" } "ws") ++ [.calls 0 1]

theorem leaveTogether_legal : leaveTogether.Forall (Turn.Legal M (Program plainService)) :=
  List.forall_append.2 ⟨List.forall_append.2 ⟨begins_legal 0 4 _, begins_legal 1 5 _⟩, trivial⟩

theorem last_owners_leave : ¬ ∀ (svc : Service) (db : Db)
    (past : List (Pool (TxOp Stmt PgErr) (Store.Sys Db Resource Write) (Except (Failure PgErr Err) Unit)))
    (p : Pool (TxOp Stmt PgErr) (Store.Sys Db Resource Write) (Except (Failure PgErr Err) Unit)), Owned db →
    Run (Pool.Next (store.machine Env) (Program svc)) (.idle (.quiet db)) past p → Owned p.shared.db := by
  intro h
  have hplay : (Pool.play (store.autoExec fun _ _ => true) leaveTogether (.idle sharedDb)).any fun p =>
      ¬ Owned p.shared := by decide
  obtain ⟨past, p, hrun, hcheck⟩ := Store.play_autocommit leaveTogether_legal (fun db => ¬ Owned db) hplay
  have hplain := hrun.mono fun p p' hnext => hnext.of_given
  exact of_decide_eq_true hcheck (h plainService sharedDb past p (by decide) hplain)

end Ploykit.Workspace

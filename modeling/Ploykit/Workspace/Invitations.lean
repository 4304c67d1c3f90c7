import Ploykit.Workspace.Owners

/-!
# Pending invitations

The service and its lists look for invitations that are pending and have not expired. The
unique index cannot look at the clock, so an expired row that nobody has closed
is still in the way of the next one.
-/

namespace Ploykit.Workspace

open Lib Lib.Store

/-! ## Three readings of pending -/

namespace Db

/-- The rows that `uq_invitation_pending_ws_email` holds for the address. -/
def indexed (db : Db) (ws email : String) : List InvitationRow :=
  db.invitations.rows.filter fun i => i.workspaceID = ws ∧ i.email = email ∧ i.status = .pending

/-- `ListInvitations`, all its pages. -/
def listInvitations (db : Db) (ws : String) : List InvitationRow :=
  (db.invitations.rows.filter fun i => i.workspaceID = ws ∧ i.status = .pending ∧ db.clock < i.expiresAt).insertionSort
    fun i j => j.createdAt ≤ i.createdAt

/-- An invitation of the address has expired, and nobody has revoked or declined it. -/
def Lapsed (db : Db) (ws email : String) : Prop := ∃ i ∈ db.indexed ws email, i.expiresAt ≤ db.clock

variable {db : Db} {ws email : String} {i : InvitationRow}

theorem mem_indexed : i ∈ db.indexed ws email ↔
    i ∈ db.invitations.rows ∧ i.workspaceID = ws ∧ i.email = email ∧ i.status = .pending := by
  simp [indexed]

theorem mem_listInvitations : i ∈ db.listInvitations ws ↔
    i ∈ db.invitations.rows ∧ i.workspaceID = ws ∧ i.status = .pending ∧ db.clock < i.expiresAt := by
  simp [listInvitations, List.mem_insertionSort]

theorem hasPending_iff : db.hasPending ws email ↔ ∃ i, i ∈ db.indexed ws email := by
  simp [hasPending, mem_indexed]

/-- What is indexed is what is listed, where nothing has lapsed. -/
theorem indexed_listed_iff :
    (∀ i, i ∈ db.indexed ws email ↔ i ∈ db.listInvitations ws ∧ i.email = email) ↔ ¬ db.Lapsed ws email := by
  constructor
  · rintro h ⟨i, hi, hexpired⟩
    have hlive := (mem_listInvitations.1 ((h i).1 hi).1).2.2.2
    exact absurd hlive (not_lt.2 hexpired)
  · intro hnone i
    rw [mem_indexed, mem_listInvitations]
    constructor
    · rintro ⟨hrow, hws, hemail, hpending⟩
      have hlive : db.clock < i.expiresAt := not_le.1 fun hexpired =>
        hnone ⟨i, mem_indexed.2 ⟨hrow, hws, hemail, hpending⟩, hexpired⟩
      exact ⟨⟨hrow, hws, hpending, hlive⟩, hemail⟩
    · rintro ⟨⟨hrow, hws, hpending, -⟩, hemail⟩
      exact ⟨hrow, hws, hemail, hpending⟩

end Db

/-- `HasPendingInvitation` finds what is listed. -/
theorem eval_hasPendingInvitation (held : Resource → Bool) (db : Db) (ws email : String) :
    eval (.hasPendingInvitation ws email) held db = .ok (reads (∃ i ∈ db.listInvitations ws, i.email = email)) := by
  have hsame : (db.invitations.rows.any fun i => i.workspaceID = ws ∧ i.email = email ∧ i.status = .pending ∧ db.clock < i.expiresAt)
      = decide (∃ i ∈ db.listInvitations ws, i.email = email) := by
    rw [Bool.eq_iff_iff, List.any_eq_true, decide_eq_true_eq]
    refine exists_congr fun i => ?_
    rw [Db.mem_listInvitations, decide_eq_true_eq]
    tauto
  exact congrArg (fun b => Except.ok (reads b)) hsame

/-! ## Who may invite -/

section permitted

variable {α : Type} {db : Db}

/-- The sessions that leave the database as it is. -/
abbrev readers (db : Db) : Protocol store Unit := Protocol.keeping store touches same Env (· = db)

theorem reading_readers : Reading (readers db) := by
  intro β s h
  refine Protocol.kept_read fun held db' o ho => ?_
  rcases eval_effect ho with hnone | ⟨w, -, -, heffect⟩
  · exact hnone
  · exact (h db' w heffect).elim

/-- The permission check, run alone, only reads. -/
theorem canIn_reads (svc : Service) (actor : Webx.Principal) (ws : String) (perm : Authz.Permission) :
    (store.runSolo (svc.canIn actor ws perm).run db).2 = (none, db) := by
  have hkept : Protocol.Kept (readers db) (svc.canIn actor ws perm) := kept_map (kept_permitted reading_readers)
  have hsolo := hkept.runSolo same_refl rfl
  exact Prod.ext hsolo.1 hsolo.2

end permitted

/-! ## Errors by their names -/

theorem sp_mapErr {α : Type} {m : Act α} {Q : Except (Failure PgErr Err) α → Option (Tx Resource Write) → Db → Prop}
    (h : store.sp m none db fun r t' db' => Q (r.mapError fun f => if f = .store .uniqueViolation then .app .errDuplicate else f) t' db') :
    store.sp (Repo.mapErr m) none db Q := by
  refine sp_bind (sp_attempt (sp_mono h ?_))
  intro r t' db' hQ
  cases r with
  | ok a => exact sp_pure hQ
  | error f =>
    refine sp_ite (fun hunique => ?_) fun hother => ?_
    · simp only [Checks.mapError_error, if_pos hunique] at hQ
      exact sp_throw hQ
    · simp only [Checks.mapError_error, if_neg hother] at hQ
      exact sp_throw hQ

theorem sp_translate {α : Type} {expected : Err} {e : Webx.Error} {m : Act α}
    {Q : Except (Failure PgErr Err) α → Option (Tx Resource Write) → Db → Prop}
    (h : store.sp m none db fun r t' db' => Q (r.mapError fun f => if f = .app expected then .app (.api e) else f) t' db') :
    store.sp (translate expected e m) none db Q := by
  refine sp_bind (sp_attempt (sp_mono h ?_))
  intro r t' db' hQ
  cases r with
  | ok a => exact sp_pure hQ
  | error f =>
    refine sp_ite (fun hexpected => ?_) fun hother => ?_
    · simp only [Checks.mapError_error, if_pos hexpected] at hQ
      exact sp_throw hQ
    · simp only [Checks.mapError_error, if_neg hother] at hQ
      exact sp_throw hQ

/-! ## Invitations -/

/-- What an invitation asks for: an actor with the permission, a valid address and role, a workspace and an actor that
there are, and an address of nobody who is a member or has an invitation that can still be accepted. -/
structure Invitable (svc : Service) (db : Db) (actor : Webx.Principal) (ws rawEmail role : String) : Prop where
  permitted : (store.runSolo (svc.canIn actor ws "members:invite").run db).1 = .ok true
  email : svc.emailOK (svc.normalizeEmail rawEmail)
  role : assignableRole role
  workspace : (db.workspaces.get ws).isSome
  actor : (db.users actor.userID).isSome
  member : ∀ m ∈ db.members.rows, m.workspaceID = ws → m.isActive → ∀ u ∈ db.users m.userID, u.email ≠ svc.normalizeEmail rawEmail
  unlisted : ∀ i ∈ db.listInvitations ws, i.email ≠ svc.normalizeEmail rawEmail

section invite

variable {svc : Service} {db : Db} {actor : Webx.Principal} {ws rawEmail role newID : String}

/-- Run alone, the invitation comes to the INSERT. -/
theorem sp_invite (h : Invitable svc db actor ws rawEmail role) {Q : Except (Failure PgErr Err) InvitationRow →
    Option (Tx Resource Write) → Db → Prop} (hinsert : store.sp (translate .errDuplicate (Webx.newConflict "invitation already pending")
      (Repo.mapErr (Action.query (.createInvitation newID ws (svc.normalizeEmail rawEmail) role actor.userID (db.clock + inviteTTL)))))
      none db Q) : store.sp (svc.invite actor ws rawEmail role newID) none db Q := by
  have hcan : store.runSolo (svc.canIn actor ws "members:invite").run db = (.ok true, none, db) :=
    Prod.ext h.permitted (canIn_reads ..)
  have hpending : eval (.hasPendingInvitation ws (svc.normalizeEmail rawEmail)) (fun _ => false) db = .ok (reads false) := by
    rw [eval_hasPendingInvitation, decide_eq_false]
    rintro ⟨i, hi, hemail⟩
    exact h.unlisted i hi hemail
  have hmember : eval (.isMemberByEmail ws (svc.normalizeEmail rawEmail)) (fun _ => false) db = .ok (reads false) := by
    refine congrArg (fun b => Except.ok (reads b)) (List.any_eq_false.2 fun m hm hfound => ?_)
    obtain ⟨hws, hactive, hany⟩ := of_decide_eq_true hfound
    obtain ⟨u, hu, hemail⟩ := Option.any_eq_true _ _ |>.1 hany
    exact h.member m hm hws hactive u hu (of_decide_eq_true hemail)
  refine sp_bind (sp_of_runSolo hcan (sp_ite (fun _ => ?_) fun hfalse => absurd rfl hfalse))
  refine sp_ite (fun hinvalid => absurd h.email hinvalid) fun _ => sp_ite (fun hinvalid => absurd h.role hinvalid) fun _ => ?_
  refine sp_bind (sp_mapErr (sp_query_auto hpending (sp_ite (fun htrue => Bool.noConfusion htrue) fun _ => ?_)))
  refine sp_bind (sp_mapErr (sp_query_auto hmember (sp_ite (fun htrue => Bool.noConfusion htrue) fun _ => ?_)))
  exact sp_bind (sp_query_auto rfl hinsert)

theorem assignableRole_parse (h : assignableRole role) : ∃ r, AssignedRole.parse role = some r := by
  rcases of_decide_eq_true h with rfl | rfl
  · exact ⟨_, rfl⟩
  · exact ⟨_, rfl⟩

/-- The INSERT fails exactly at the index. -/
theorem invite_outcome (h : Invitable svc db actor ws rawEmail role) (hid : db.invitations.get newID = none) :
    (∃ i, (store.runSolo (svc.invite actor ws rawEmail role newID).run db).1 = .ok i) ↔
      db.hasPending ws (svc.normalizeEmail rawEmail) = false := by
  obtain ⟨r, hrole⟩ := assignableRole_parse h.role
  have hfree : (db.invitations.get newID).isSome = false := by rw [hid]; rfl
  have hexists : ((db.workspaces.get ws).isNone ∨ (db.users actor.userID).isNone) ↔ False := by
    rw [← Option.not_isSome, ← Option.not_isSome, h.workspace, h.actor]
    decide
  refine sp_runSolo (S := store) (Q := fun res _ _ => (∃ i, res = .ok i) ↔ _) (sp_invite h (sp_translate (sp_mapErr ?_)))
  cases hpending : db.hasPending ws (svc.normalizeEmail rawEmail) with
  | true =>
    have hinsert : store.eval (.createInvitation newID ws (svc.normalizeEmail rawEmail) role actor.userID (db.clock + inviteTTL))
        (fun _ => false) db = .error .uniqueViolation := by
      simp only [store, eval, hrole, hpending, true_or, if_true]
    refine sp_query_fails hinsert (iff_of_false ?_ Bool.noConfusion)
    rintro ⟨i, hi⟩
    cases hi
  | false =>
    have hinsert : ∃ i, store.eval (.createInvitation newID ws (svc.normalizeEmail rawEmail) role actor.userID
        (db.clock + inviteTTL)) (fun _ => false) db = .ok (writes i (.insertInvitation i)) := by
      simp only [store, eval, hrole, hpending, hfree, hexists, Bool.false_eq_true, or_self, if_false]
      exact ⟨_, rfl⟩
    obtain ⟨i, hinsert⟩ := hinsert
    exact sp_query_auto hinsert (iff_of_true ⟨i, rfl⟩ rfl)

/-- An invitation succeeds if and only if none of the address has lapsed, and only then the index counts
what is listed. -/
theorem invite_unless_lapsed (h : Invitable svc db actor ws rawEmail role) (hid : db.invitations.get newID = none) :
    ((∃ i, (store.runSolo (svc.invite actor ws rawEmail role newID).run db).1 = .ok i) ↔
      ¬ db.Lapsed ws (svc.normalizeEmail rawEmail)) ∧
    ((∀ i, i ∈ db.indexed ws (svc.normalizeEmail rawEmail) ↔
      i ∈ db.listInvitations ws ∧ i.email = svc.normalizeEmail rawEmail) ↔ ¬ db.Lapsed ws (svc.normalizeEmail rawEmail)) := by
  refine ⟨(invite_outcome h hid).trans ?_, Db.indexed_listed_iff⟩
  rw [← Db.indexed_listed_iff, ← Bool.not_eq_true, Db.hasPending_iff]
  constructor
  · intro hnone i
    exact iff_of_false (fun hi => hnone ⟨i, hi⟩) fun hi => h.unlisted i hi.1 hi.2
  · rintro hsame ⟨i, hi⟩
    obtain ⟨hlisted, hemail⟩ := (hsame i).1 hi
    exact h.unlisted i hlisted hemail

instance : Decidable (Invitable svc db actor ws rawEmail role) :=
  decidable_of_iff ((store.runSolo (svc.canIn actor ws "members:invite").run db).1 = .ok true ∧
    svc.emailOK (svc.normalizeEmail rawEmail) ∧ assignableRole role ∧ (db.workspaces.get ws).isSome ∧
    (db.users actor.userID).isSome ∧
    (∀ m ∈ db.members.rows, m.workspaceID = ws → m.isActive → ∀ u ∈ db.users m.userID, u.email ≠ svc.normalizeEmail rawEmail) ∧
    ∀ i ∈ db.listInvitations ws, i.email ≠ svc.normalizeEmail rawEmail)
    ⟨fun ⟨h₁, h₂, h₃, h₄, h₅, h₆, h₇⟩ => ⟨h₁, h₂, h₃, h₄, h₅, h₆, h₇⟩,
      fun h => ⟨h.permitted, h.email, h.role, h.workspace, h.actor, h.member, h.unlisted⟩⟩

end invite

/-! ### An invitation that nobody answers -/

abbrev ann : Webx.Principal := { userID := "ann" }

theorem invite_unless_lapsed_first : (∃ i, (store.runSolo (plainService.invite ann "ws" "zoe@example.com" "member" "i1").run sharedDb).1
    = .ok i) ∧ ¬ sharedDb.Lapsed "ws" "zoe@example.com" := by
  have hnone : ¬ sharedDb.Lapsed "ws" "zoe@example.com" := by rintro ⟨i, hi, -⟩; cases hi
  exact ⟨(invite_unless_lapsed (by decide) rfl).1.2 hnone, hnone⟩

/-- The owner invites somebody who does not answer, and the invitation expires. -/
def unanswered : Sessions :=
  begins 0 6 (.invite ann "ws" "zoe@example.com" "member" "i1") ++ [.env fun db => { db with clock := db.clock + inviteTTL }]

theorem invite_lapsed : ¬ ∀ (svc : Service) (db : Db)
    (past : List (Pool (TxOp Stmt PgErr) (Store.Sys Db Resource Write) (Except (Failure PgErr Err) Unit)))
    (p : Pool (TxOp Stmt PgErr) (Store.Sys Db Resource Write) (Except (Failure PgErr Err) Unit)),
    Run (Pool.Next (store.machine Env) (Program svc)) (.idle (.quiet db)) past p →
    ∀ actor ws rawEmail role newID, Invitable svc p.shared.db actor ws rawEmail role → p.shared.db.invitations.get newID = none →
      ∃ i, (store.runSolo (svc.invite actor ws rawEmail role newID).run p.shared.db).1 = .ok i := by
  intro h
  have hlegal : unanswered.Forall (Turn.Legal (store.autocommit (fun _ _ => true) Env) (Program plainService)) :=
    List.forall_append.2 ⟨begins_legal 0 6 _, fun db => ⟨rfl, rfl, rfl, rfl, le_add_of_nonneg_right (by decide)⟩⟩
  have hplay : (Pool.play (store.autoExec fun _ _ => true) unanswered (.idle sharedDb)).any fun p =>
      Invitable plainService p.shared ann "ws" "zoe@example.com" "member" ∧ p.shared.invitations.get "i2" = none ∧
        p.shared.hasPending "ws" "zoe@example.com" := by decide
  obtain ⟨past, p, hrun, hcheck⟩ := Store.play_autocommit hlegal (fun db =>
    Invitable plainService db ann "ws" "zoe@example.com" "member" ∧ db.invitations.get "i2" = none ∧
      db.hasPending "ws" "zoe@example.com") hplay
  obtain ⟨hinvitable, hid, hpending⟩ := of_decide_eq_true hcheck
  have hok := h plainService sharedDb past p (hrun.mono fun p p' hnext => hnext.of_given) _ _ _ _ _ hinvitable hid
  have hnone := (invite_outcome hinvitable hid).1 hok
  exact Bool.noConfusion (hpending.symm.trans hnone)

end Ploykit.Workspace

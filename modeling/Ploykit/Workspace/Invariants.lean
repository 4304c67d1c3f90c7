import Ploykit.Workspace.Service

/-!
# Invariants of members

A `Stable` invariant looks at members only, and a user who joins does not break it. All
requests keep it but those that change or end memberships; these keep it where their
updates do.
-/

namespace Ploykit.Workspace

open Lib Protocol
open Authz (Permission RoleKey)

/-- The workspace sessions that keep `I`, where statements are executed under `C`. -/
abbrev keepers (C : {β : Type} → Stmt β → Db → Bool) (I : Db → Prop) :
    Protocol (store.checked C PgErr.unavailable) Unit :=
  keeping (store.checked C PgErr.unavailable) touches same Env I

structure Stable (I : Db → Prop) : Prop where
  members : ∀ (db db' : Db), db'.members = db.members → db'.workspaces = db.workspaces → I db → I db'
  join : ∀ {db : Db} {m : MemberRow}, m.role ≠ .owner → I db → I { db with members := db.members.insert m }

variable {C : {β : Type} → Stmt β → Db → Bool} {I : Db → Prop} {α β : Type}

/-! ## Statements -/

theorem kept_effect {s : Stmt β} (h : ∀ db w, I db → C s db → Effect db s w → I (apply db w)) :
    Kept (keepers C I) (Action.query s : Act β) := by
  refine kept_query fun held db o hI ho => ?_
  obtain ⟨hpass, heval⟩ := Store.eval_checked ho
  rcases eval_effect heval with hnone | ⟨w, hwrites, -, heffect⟩
  · rw [hnone]
    exact hI
  · rw [hwrites]
    exact h db w hI hpass heffect

/-- The statement writes nothing. -/
def NoEffect (s : Stmt β) : Prop := ∀ db w, ¬ Effect db s w

theorem kept_select {s : Stmt β} (h : NoEffect s) : Kept (keepers C I) (Action.query s : Act β) :=
  kept_effect fun db w _ _ he => (h db w he).elim

/-- What is read is read of tables that satisfy the invariant. -/
theorem yields_select {s : Stmt β} {Q : β → Prop} (h : NoEffect s)
    (hQ : ∀ db held o, I db → eval s held db = .ok o → Q o.value) :
    Yields (keepers C I) (Action.query s : Act β) Q := by
  intro done db
  refine awp_query_auto (fun e => rfl) fun db₁ hrely => ⟨trivial, fun _ held o ho => ?_⟩
  have heval := (Store.eval_checked ho).2
  rcases eval_effect heval with hnone | ⟨w, -, -, heffect⟩
  · rw [hnone]
    exact ⟨done, .stay, rfl, hQ db₁ held o hrely.inv heval⟩
  · exact (h db₁ w heffect).elim

theorem kept_select_bind {s : Stmt β} {f : β → Act α} (h : NoEffect s)
    (hf : ∀ db held o, I db → eval s held db = .ok o → Kept (keepers C I) (f o.value)) :
    Kept (keepers C I) (Action.query s >>= f) :=
  kept_bind_yields (yields_select h hf) fun _ hb => hb

theorem mild_effect {s : Stmt β} (h : ∀ db w, Effect db s w → ∀ db', I db' → I (apply db' w)) :
    Mild (keepers C I) (Action.query s : Act β) := by
  refine mild_query fun held db o ho w hw => ?_
  rcases eval_effect (Store.eval_checked ho).2 with hnone | ⟨w', hwrites, -, heffect⟩
  · rw [hnone] at hw
    exact (List.not_mem_nil hw).elim
  · rw [hwrites] at hw
    cases List.mem_singleton.1 hw
    exact h db w heffect

theorem mild_select {s : Stmt β} (h : NoEffect s) : Mild (keepers C I) (Action.query s : Act β) :=
  mild_effect fun db w he => (h db w he).elim

/-- A statement on invitations, share links or new members. -/
inductive Aside : {β : Type} → Stmt β → Prop
  | createInvitation (id ws email role createdBy : String) (expiresAt : Time) :
    Aside (.createInvitation id ws email role createdBy expiresAt)
  | revokeInvitation (ws id : String) : Aside (.revokeInvitation ws id)
  | declineInvitation (id email : String) : Aside (.declineInvitation id email)
  | acceptInvitation (id user email : String) (now : Time) : Aside (.acceptInvitation id user email now)
  | insertMember (id ws user : String) (role : AssignedRole) (now : Time) (orNothing : Bool) :
    Aside (.insertMember id ws user role now orNothing)
  | createShareLink (id ws codeHash codePrefix role createdBy : String) (maxUses : Int) (expiresAt : Time) :
    Aside (.createShareLink id ws codeHash codePrefix role createdBy maxUses expiresAt)
  | revokeShareLink (ws id : String) (now : Time) : Aside (.revokeShareLink ws id now)
  | countUse (codeHash : String) : Aside (.countUse codeHash)

theorem Aside.keeps {s : Stmt β} (ha : Aside s) (hI : Stable I) (db : Db) (w : Write) (he : Effect db s w) (db' : Db)
    (h : I db') : I (apply db' w) := by
  cases ha with
  | createInvitation id ws email role createdBy expiresAt =>
    obtain ⟨i, -, -, -, -, -, -, rfl⟩ := he
    simp only [apply]
    split
    · exact hI.members db' _ rfl rfl h
    · exact h
  | revokeInvitation ws id =>
    obtain ⟨i, -, -, -, rfl⟩ := he
    exact hI.members db' _ rfl rfl h
  | declineInvitation id email =>
    obtain ⟨i, -, -, -, rfl⟩ := he
    exact hI.members db' _ rfl rfl h
  | acceptInvitation id user email now =>
    obtain ⟨i, -, -, -, -, rfl⟩ := he
    exact hI.members db' _ rfl rfl h
  | insertMember id ws user role now orNothing =>
    obtain ⟨m, -, rfl, rfl⟩ := he
    exact hI.join role.2 h
  | createShareLink id ws codeHash codePrefix role createdBy maxUses expiresAt =>
    obtain ⟨l, -, -, -, -, -, -, -, -, -, -, rfl⟩ := he
    simp only [apply]
    split
    · exact hI.members db' _ rfl rfl h
    · exact h
  | revokeShareLink ws id now =>
    obtain ⟨l, -, -, -, rfl⟩ := he
    exact hI.members db' _ rfl rfl h
  | countUse codeHash =>
    obtain ⟨l, -, -, -, rfl⟩ := he
    exact hI.members db' _ rfl rfl h

theorem kept_aside {s : Stmt β} (ha : Aside s) (hI : Stable I) : Kept (keepers C I) (Action.query s : Act β) :=
  kept_effect fun db w h _ he => ha.keeps hI db w he db h

theorem mild_aside {s : Stmt β} (ha : Aside s) (hI : Stable I) : Mild (keepers C I) (Action.query s : Act β) :=
  mild_effect fun db w he => ha.keeps hI db w he

/-! ## The repository -/

variable {D : Type} {S : Store Stmt D Resource Write PgErr} {P : Protocol S Unit}

theorem kept_refuse {e : Webx.Error} : Kept P (refuse e : Act α) := kept_throw

theorem kept_map {m : Act β} {f : β → α} (hm : Kept P m) : Kept P (f <$> m) := by
  rw [map_eq_pure_bind]
  exact kept_bind hm fun b => kept_pure

theorem kept_translate {expected : Err} {e : Webx.Error} {m : Act α} (hm : Kept P m) :
    Kept P (translate expected e m) := by
  refine kept_bind (kept_attempt hm) fun r => ?_
  cases r with
  | ok a => exact kept_pure
  | error f => exact kept_ite (fun _ => kept_refuse) fun _ => kept_throw

theorem kept_mapErr {m : Act α} (hm : Kept P m) : Kept P (Repo.mapErr m) := by
  refine kept_bind (kept_attempt hm) fun r => ?_
  cases r with
  | ok a => exact kept_pure
  | error f => exact kept_ite (fun _ => kept_throw) fun _ => kept_throw

/-- What an action in a transaction ends in does not depend on which error it maps to. -/
theorem awp_mapErr {R : Failure PgErr Err → List Unit → Option (Tx Resource Write) → Prop} {m : Act α}
    {Q : α → List Unit → Option (Tx Resource Write) → D → Prop} {done : List Unit} {t : Option (Tx Resource Write)}
    {db : D} (hR : ∀ f f' done t, R f done t → R f' done t) (hm : P.awp R m Q done t db) :
    P.awp R (Repo.mapErr m) Q done t db := by
  refine awp_bind (awp_attempt (awp_mono ?_ (awp_fail_mono hm ?_)))
  · intro a done' t' db' hq
    exact awp_pure hq
  · intro f done' t' hf db'
    exact awp_ite (fun _ => awp_throw (hR _ _ _ _ hf)) fun _ => awp_throw hf

theorem mild_mapErr {m : Act α} (hm : Mild P m) : Mild P (Repo.mapErr m) :=
  fun done tx db htx => awp_mapErr (fun _ _ _ _ h => h) (hm done tx db htx)

theorem kept_affecting {s : Stmt Nat} (hs : Kept P (Action.query s : Act Nat)) : Kept P (Repo.affecting s) :=
  kept_bind (kept_mapErr hs) fun _ => kept_ite (fun _ => kept_throw) fun _ => kept_pure

theorem kept_notUpdated {ws user : String} : Kept (keepers C I) (Repo.notUpdated ws user) := by
  refine kept_bind (kept_attempt (kept_select fun _ _ he => he)) fun r => ?_
  match r with
  | .ok true => exact kept_throw
  | .ok false => exact kept_throw
  | .error f => exact kept_throw

theorem kept_guarded {ws user : String} {update : Scan → Stmt Nat}
    (hupdate : ∀ scan, Kept (keepers C I) (Action.query (update scan) : Act Nat)) :
    Kept (keepers C I) (Repo.guarded ws user update) := by
  refine kept_bind (kept_mapErr (kept_bind (kept_select fun _ _ he => he) fun r => ?_)) fun affected => ?_
  · cases r with
    | none => exact kept_pure
    | some scan => exact hupdate scan
  · exact kept_ite (fun _ => kept_notUpdated) fun _ => kept_pure

theorem mild_joinTx {newID ws user : String} {role : AssignedRole} {now : Time} {orNothing : Bool} {counting : Act Unit}
    (hI : Stable I) (hcounting : Mild (keepers C I) counting) :
    Mild (keepers C I) (Repo.joinTx newID ws user role now orNothing counting) := by
  refine mild_bind (mild_select fun _ _ he => he) fun alreadyMember => mild_ite (fun _ => mild_select fun _ _ he => he) fun _ => ?_
  refine mild_bind hcounting fun _ => mild_bind (mild_mapErr ?_) fun _ => mild_select fun _ _ he => he
  exact mild_aside (.insertMember newID ws user role now orNothing) hI

theorem mild_acceptInvitationTx {newID invID user email : String} {now : Time} (hI : Stable I) :
    Mild (keepers C I) (Repo.acceptInvitationTx newID invID user email now) := by
  refine mild_bind (mild_aside (.acceptInvitation invID user email now) hI) fun r => ?_
  match r with
  | none => exact mild_throw
  | some (ws, role) => exact mild_joinTx hI mild_pure

theorem mild_redeemShareLinkTx {newID codeHash user : String} {now : Time} (hI : Stable I) :
    Mild (keepers C I) (Repo.redeemShareLinkTx newID codeHash user now) := by
  refine mild_bind (mild_select fun _ _ he => he) fun r => ?_
  match r with
  | none => exact mild_throw
  | some (ws, role) => exact mild_joinTx hI (mild_aside (.countUse codeHash) hI)

/-! ## The service -/

variable {svc : Service} {actor : Webx.Principal} {ws : String}

/-- The sessions may read as they like. -/
def Reading (P : Protocol S Unit) : Prop := ∀ {β : Type} (s : Stmt β), NoEffect s → Kept P (Action.query s : Act β)

theorem reading_keepers : Reading (keepers C I) := fun _ h => kept_select h

theorem kept_principalIn (hread : Reading P) : Kept P (Service.principalIn actor ws) := by
  refine kept_ite (fun _ => kept_pure) fun _ => kept_ite (fun _ => kept_pure) fun _ => ?_
  refine kept_bind (kept_attempt (hread _ fun _ _ he => he)) fun r => ?_
  match r with
  | .ok (some me) => exact kept_pure
  | .ok none => exact kept_pure
  | .error f => exact kept_pure

theorem kept_loadCustom (hread : Reading P) {key : RoleKey} : Kept P (Service.loadCustom key) := by
  refine kept_bind (kept_attempt (hread _ fun _ _ he => he)) fun r => ?_
  cases r with
  | ok perms => exact kept_pure
  | error f => exact kept_pure

theorem kept_authz (hread : Reading P) {a : Authz.Authorizer} {p : Webx.Principal} {perm : Permission} :
    Kept P (a.canIn Service.loadCustom p perm) := by
  refine kept_ite (fun _ => kept_pure) fun _ => kept_ite (fun _ => kept_pure) fun _ => ?_
  refine kept_ite (fun _ => kept_pure) fun _ => kept_ite (fun _ => kept_pure) fun _ => ?_
  refine kept_ite (fun _ => kept_bind (kept_loadCustom hread) fun r => ?_) fun _ => kept_pure
  cases r with
  | none => exact kept_pure
  | some perms => exact kept_pure

theorem kept_permitted (hread : Reading P) {perm : Permission} : Kept P (svc.permitted actor ws perm) := by
  refine kept_bind (kept_principalIn hread) fun r => ?_
  cases r with
  | none => exact kept_pure
  | some p => exact kept_bind (kept_authz hread) fun ok => kept_pure

theorem kept_requiring (hread : Reading P) {perm : Permission} {k : Act α} (hk : Kept P k) :
    Kept P (svc.requiring actor ws perm k) :=
  kept_bind (kept_map (kept_permitted hread)) fun _ => kept_ite (fun _ => hk) fun _ => kept_refuse

theorem kept_checkDemotion {who : Webx.Principal} {target : Member} :
    Kept (keepers C I) (Service.checkDemotion actor who ws target) := by
  refine kept_ite (fun _ => kept_ite (fun _ => kept_refuse) fun _ => ?_) fun _ => kept_pure
  exact kept_bind (kept_select fun _ _ he => he) fun n => kept_ite (fun _ => kept_refuse) fun _ => kept_pure

theorem kept_checkRemoval {target : Member} : Kept (keepers C I) (Service.checkRemoval ws target) := by
  refine kept_ite (fun _ => ?_) fun _ => kept_pure
  exact kept_bind (kept_select fun _ _ he => he) fun n => kept_ite (fun _ => kept_refuse) fun _ => kept_pure

theorem kept_updateMemberRole {targetUserID newRole : String}
    (hupdate : Kept (keepers C I) (Repo.updateMemberRole ws targetUserID newRole)) :
    Kept (keepers C I) (svc.updateMemberRole actor ws targetUserID newRole) := by
  refine kept_bind (kept_permitted reading_keepers) fun r => ?_
  cases r with
  | none => exact kept_refuse
  | some who =>
    refine kept_ite (fun _ => kept_refuse) fun _ => kept_bind (kept_select fun _ _ he => he) fun r => ?_
    cases r with
    | none => exact kept_refuse
    | some target =>
      refine kept_ite (fun _ => kept_refuse) fun _ => ?_
      exact kept_bind kept_checkDemotion fun _ => kept_translate hupdate

theorem kept_removeMember {targetUserID : String}
    (hremove : ∀ now, Kept (keepers C I) (Repo.softRemoveMember ws targetUserID actor.userID now)) :
    Kept (keepers C I) (svc.removeMember actor ws targetUserID) := by
  refine kept_requiring reading_keepers (kept_bind (kept_select fun _ _ he => he) fun r => ?_)
  cases r with
  | none => exact kept_refuse
  | some target =>
    refine kept_ite (fun _ => kept_refuse) fun _ => kept_bind kept_checkRemoval fun _ => ?_
    exact kept_bind (kept_select fun _ _ he => he) fun now => kept_translate (hremove now)

theorem kept_leave (hremove : ∀ now, Kept (keepers C I) (Repo.softRemoveMember ws actor.userID actor.userID now)) :
    Kept (keepers C I) (Service.leave actor ws) := by
  refine kept_bind (kept_select fun _ _ he => he) fun r => ?_
  cases r with
  | none => exact kept_refuse
  | some me =>
    refine kept_bind (kept_select fun _ _ he => he) fun n => kept_ite (fun _ => kept_refuse) fun _ => ?_
    exact kept_bind (kept_select fun _ _ he => he) fun now => kept_translate (hremove now)

theorem kept_transferFrom : Kept (keepers C I) (Service.transferFrom actor ws) := by
  refine kept_bind (kept_select fun _ _ he => he) fun me => kept_ite (fun _ => kept_pure) fun _ => ?_
  refine kept_ite (fun _ => kept_refuse) fun _ => kept_bind (kept_select fun _ _ he => he) fun r => ?_
  cases r with
  | none => exact kept_refuse
  | some owner => exact kept_pure

/-- A request that ends no membership and changes no role. -/
def Call.Gentle : Call → Prop
  | .updateMemberRole .. => False
  | .removeMember .. => False
  | .leave .. => False
  | .transferOwnership .. => False
  | _ => True

theorem Call.Gentle.kept {c : Call} (hc : c.Gentle) (hI : Stable I) : Kept (keepers C I) (c.exec svc) := by
  cases c with
  | updateMemberRole actor ws targetUserID newRole => exact hc.elim
  | removeMember actor ws targetUserID => exact hc.elim
  | leave actor ws => exact hc.elim
  | transferOwnership actor ws newOwnerUserID => exact hc.elim
  | invite actor ws rawEmail role newID =>
    refine kept_map (kept_requiring reading_keepers (kept_ite (fun _ => kept_refuse) fun _ => ?_))
    refine kept_ite (fun _ => kept_refuse) fun _ => kept_bind (kept_mapErr (kept_select fun _ _ he => he)) fun pending => ?_
    refine kept_ite (fun _ => kept_refuse) fun _ => kept_bind (kept_mapErr (kept_select fun _ _ he => he)) fun isMember => ?_
    refine kept_ite (fun _ => kept_refuse) fun _ => kept_bind (kept_select fun _ _ he => he) fun now => ?_
    exact kept_translate (kept_mapErr (kept_aside (.createInvitation ..) hI))
  | revokeInvitation actor ws invID =>
    exact kept_requiring reading_keepers (kept_translate (kept_affecting (kept_aside (.revokeInvitation ws invID) hI)))
  | declineInvitation actor invID =>
    exact kept_translate (kept_affecting (kept_aside (.declineInvitation invID actor.email) hI))
  | acceptInvitation actor invID newID =>
    exact kept_map (kept_bind (kept_select fun _ _ he => he) fun now => kept_inTx (mild_acceptInvitationTx hI))
  | createShareLink actor ws role maxUses ttl code newID =>
    refine kept_map (kept_requiring reading_keepers (kept_ite (fun _ => kept_refuse) fun _ => ?_))
    refine kept_ite (fun _ => kept_refuse) fun _ => kept_ite (fun _ => kept_refuse) fun _ => ?_
    refine kept_bind (kept_select fun _ _ he => he) fun now => kept_bind (kept_mapErr ?_) fun link => kept_pure
    exact kept_aside (.createShareLink ..) hI
  | revokeShareLink actor ws linkID =>
    refine kept_requiring reading_keepers (kept_bind (kept_select fun _ _ he => he) fun now => kept_translate (kept_affecting ?_))
    exact kept_aside (.revokeShareLink ws linkID now) hI
  | redeemShareLink actor code newID =>
    refine kept_map (kept_ite (fun _ => kept_refuse) fun _ => kept_bind (kept_select fun _ _ he => he) fun now => ?_)
    exact kept_inTx (mild_redeemShareLinkTx hI)

/-! ## Runs -/

/-- What every request keeps holds in every state that sessions reach. -/
theorem run_keeps {progs : Script (TxOp Stmt PgErr) (Except (Failure PgErr Err) Unit) → Prop} (hI : Stable I)
    (hprogs : ∀ m, progs m → ∃ c : Call, m = c.program svc ∧ Kept (keepers C I) (c.exec svc)) {db : Db} (h₀ : I db)
    {past : List (Pool (TxOp Stmt PgErr) (Store.Sys Db Resource Write) (Except (Failure PgErr Err) Unit))}
    {p : Pool (TxOp Stmt PgErr) (Store.Sys Db Resource Write) (Except (Failure PgErr Err) Unit)}
    (h : Run (Pool.Next ((store.machine Env).given (store.passes C)) progs) (.idle (.quiet db)) past p) :
    I p.shared.db := by
  have hrun := h.mono fun p p' hnext => Store.next_checked (e := PgErr.unavailable) hnext
  refine keeping_run framed.checked (fun db db' hdb he => hI.members db db' he.members he.workspaces hdb) ?_ h₀ hrun
  intro m hm db'
  obtain ⟨c, rfl, hkept⟩ := hprogs m hm
  exact hkept.program db'

end Ploykit.Workspace

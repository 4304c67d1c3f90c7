import Ploykit.Lib.Desk
import Ploykit.Lib.Recorded
import Ploykit.Workspace.Owners

/-!
# The account of share links

A redemption looks for the membership before it counts a use, and inserts the member after
it, or nothing where the user has one by then. The link is locked all the time, but the
user is not, who may join by another link. Where that does not happen, a link's uses are
the users that it has made members.
-/

namespace Ploykit.Workspace

open Lib Protocol

/-! ## What a link has created -/

/-- The membership that a write creates by a link: the transaction has counted a use of it just before. -/
def Write.createdBy (w : Write) (before : Option Write) : Option (String × MemberRow) :=
  match w, before with
  | .insertMember m, some (.countUse link) => some (link, m)
  | _, _ => none

/-- The memberships that the link has created, the latest first. -/
def created (link : String) : List Write → List MemberRow
  | [] => []
  | w :: log => (((w.createdBy log.head?).filter fun c => c.1 = link).map Prod.snd).toList ++ created link log

/-- The link is neither revoked nor expired at a time that has been read since the start. -/
def OpenAt (db₀ : Db) (link : String) (now : Time) (log : List Write) : Prop :=
  db₀.clock ≤ now ∧ (∀ at', Write.revokeShareLink link at' ∉ log) ∧
    ∃ l₀, db₀.shareLinks.get link = some l₀ ∧ l₀.revokedAt = none ∧ now < l₀.expiresAt

/-- Each membership has been created at a time when its link was open. -/
def Timely (db₀ : Db) : List Write → Prop
  | [] => True
  | w :: log => (∀ link m, w.createdBy log.head? = some (link, m) → OpenAt db₀ link m.createdAt log) ∧ Timely db₀ log

/-- The links of `db₀` after the writes of `log`: what they have been used for since. -/
structure Accounted (db₀ : Db) (x : Db × List Write) : Prop where
  uses : ∀ link l, x.1.shareLinks.get link = some l → ∃ l₀, db₀.shareLinks.get link = some l₀ ∧ l.uses ≤ l.maxUses ∧
    l.uses = l₀.uses + ((created link x.2).map MemberRow.userID).dedup.length
  timely : Timely db₀ x.2

/-- UNIQUE (code_hash) and CHECK (uses <= max_uses) -/
structure LinkTable (db : Db) : Prop where
  codes : ∀ l ∈ db.shareLinks.rows, ∀ l' ∈ db.shareLinks.rows, l.codeHash = l'.codeHash → l = l'
  uses : ∀ l ∈ db.shareLinks.rows, l.uses ≤ l.maxUses

/-! ## The invariant -/

/-- A link as it has become of what it was. -/
structure LinkSince (l₀ : ShareLinkRow) (log : List Write) (l : ShareLinkRow) : Prop where
  same : { l₀ with uses := l.uses, revokedAt := l.revokedAt } = l
  uses : l.uses = l₀.uses + (created l₀.id log).length
  revoked : l.revokedAt = none → l₀.revokedAt = none ∧ ∀ now, Write.revokeShareLink l₀.id now ∉ log

/-- What the sessions keep. A user whom a link has made a member still is one. -/
structure Linked (db₀ : Db) (x : Db × List Write) : Prop where
  table : LinkTable x.1
  since : ∀ link l, x.1.shareLinks.get link = some l → ∃ l₀, db₀.shareLinks.get link = some l₀ ∧ LinkSince l₀ x.2 l
  joined : ∀ link l, x.1.shareLinks.get link = some l → ∀ m ∈ created link x.2,
    m.workspaceID = l.workspaceID ∧ (x.1.members.active m.workspaceID m.userID).isSome
  distinct : ∀ link, x.1.shareLinks.get link ≠ none → ((created link x.2).map MemberRow.userID).Nodup
  timely : Timely db₀ x.2
  clock : db₀.clock ≤ x.1.clock

section linked

variable {db₀ db : Db} {x : Db × List Write} {l : ShareLinkRow} {m : MemberRow}

theorem linked_start (h : LinkTable db) : Linked db (db, []) where
  table := h
  since _ l hl := ⟨l, hl, rfl, (add_zero _).symm, fun hnone => ⟨hnone, fun _ hmem => nomatch hmem⟩⟩
  joined _ _ _ _ hm := nomatch hm
  distinct _ _ := List.nodup_nil
  timely := trivial
  clock := le_refl _

theorem Linked.accounted (h : Linked db₀ x) : Accounted db₀ x where
  uses link l hl := by
    obtain ⟨l₀, hl₀, hsince⟩ := h.since link l hl
    have hid : l₀.id = link := Keyed.key_of_get hl₀
    have hdistinct := h.distinct link (by rw [hl]; exact Option.some_ne_none l)
    refine ⟨l₀, hl₀, h.table.uses l (Keyed.mem_of_get hl), ?_⟩
    rw [hdistinct.dedup, List.length_map, ← hid]
    exact hsince.uses
  timely := h.timely

theorem Linked.env (h : Linked db₀ x) {y : Db × List Write} (he : Store.unrecorded Env x y) : Linked db₀ y := by
  obtain ⟨⟨-, hmembers, -, hlinks, hclock⟩, hlog⟩ := he
  constructor
  · exact ⟨hlinks ▸ h.table.codes, hlinks ▸ h.table.uses⟩
  · rw [hlinks, hlog]
    exact h.since
  · rw [hlinks, hlog, hmembers]
    exact h.joined
  · rw [hlinks, hlog]
    exact h.distinct
  · rw [hlog]
    exact h.timely
  · exact h.clock.trans hclock

/-- What a link is after an update of one. -/
theorem link_update {id link : String} (f : ShareLinkRow → ShareLinkRow) (hf : ∀ l, (f l).id = l.id) {l' : ShareLinkRow}
    (h : (db.updateShareLink id f hf).shareLinks.get link = some l') :
    ∃ l, db.shareLinks.get link = some l ∧ l' = if link = id then f l else l := by
  have hget : (db.updateShareLink id f hf).shareLinks.get link
      = if link ∈ [id] then (db.shareLinks.get link).map f else db.shareLinks.get link := @Keyed.get_update _ _ _ _ _ _ _ _ hf
  rw [hget] at h
  simp only [List.mem_singleton] at h
  split at h
  · rename_i hid
    obtain ⟨l, hl, rfl⟩ := Option.map_eq_some_iff.1 h
    exact ⟨l, hl, (if_pos hid).symm⟩
  · rename_i hid
    exact ⟨l', h, (if_neg hid).symm⟩

/-- An update of a link that keeps its code. -/
theorem LinkTable.update (h : LinkTable db) {id : String} {f : ShareLinkRow → ShareLinkRow} (hf : ∀ l, (f l).id = l.id)
    (hcode : ∀ l, (f l).codeHash = l.codeHash) (huses : ∀ l, db.shareLinks.get id = some l → (f l).uses ≤ (f l).maxUses) :
    LinkTable (db.updateShareLink id f hf) := by
  have hrow : ∀ l ∈ (db.updateShareLink id f hf).shareLinks.rows, ∃ l' ∈ db.shareLinks.rows,
      l = if l'.id = id then f l' else l' := by
    intro l hl
    obtain ⟨l', hl', heq⟩ := link_update f hf (Keyed.get_of_mem hl)
    exact ⟨l', Keyed.mem_of_get hl', heq.trans (by rw [Keyed.key_of_get hl'])⟩
  have hkeep : ∀ l : ShareLinkRow, (if l.id = id then f l else l).codeHash = l.codeHash := by
    intro l
    split
    · exact hcode l
    · rfl
  constructor
  · intro l hl l' hl' hsame
    obtain ⟨l₁, hl₁, rfl⟩ := hrow l hl
    obtain ⟨l₂, hl₂, rfl⟩ := hrow l' hl'
    rw [hkeep, hkeep] at hsame
    rw [h.codes l₁ hl₁ l₂ hl₂ hsame]
  · intro l hl
    obtain ⟨l₁, hl₁, rfl⟩ := hrow l hl
    split
    · rename_i hid
      exact huses l₁ (hid ▸ Keyed.get_of_mem hl₁)
    · exact h.uses l₁ hl₁

/-- A link that is revoked creates no more. -/
theorem Linked.revoke (h : Linked db₀ x) (l : ShareLinkRow) (now : Time) :
    Linked db₀ (store.recorded.apply x (.revokeShareLink l.id now)) := by
  have hold : ∀ link l', (store.recorded.apply x (.revokeShareLink l.id now)).1.shareLinks.get link = some l' →
      ∃ l₁, x.1.shareLinks.get link = some l₁ ∧ l' = if link = l.id then l₁.revoke now else l₁ :=
    fun link l' => link_update (.revoke now) fun _ => rfl
  constructor
  · have huses : ∀ l', x.1.shareLinks.get l.id = some l' → l'.uses ≤ l'.maxUses := fun l' hl' => h.table.uses l' (Keyed.mem_of_get hl')
    exact h.table.update (f := .revoke now) (fun _ => rfl) (fun _ => rfl) huses
  · intro link l' hl'
    obtain ⟨l₁, hl₁, rfl⟩ := hold link l' hl'
    obtain ⟨l₀, hl₀, hsince⟩ := h.since link l₁ hl₁
    have hid : l₀.id = link := Keyed.key_of_get hl₀
    split
    · refine ⟨l₀, hl₀, ?_, hsince.uses, fun hnone => ?_⟩
      · rw [← hsince.same]
        rfl
      · cases hnone
    · rename_i hne
      refine ⟨l₀, hl₀, hsince.same, hsince.uses, fun hnone => ?_⟩
      obtain ⟨hopen, hlog⟩ := hsince.revoked hnone
      refine ⟨hopen, fun at' hmem => ?_⟩
      rcases List.mem_cons.1 hmem with heq | hmem
      · exact hne (hid.symm.trans (Write.revokeShareLink.inj heq).1)
      · exact hlog at' hmem
  · intro link l' hl'
    obtain ⟨l₁, hl₁, rfl⟩ := hold link l' hl'
    have hws : (if link = l.id then l₁.revoke now else l₁).workspaceID = l₁.workspaceID := by
      split <;> rfl
    rw [hws]
    exact h.joined link l₁ hl₁
  · intro link hlink
    obtain ⟨l', hl'⟩ := Option.ne_none_iff_exists'.1 hlink
    obtain ⟨l₁, hl₁, -⟩ := hold link l' hl'
    exact h.distinct link (by rw [hl₁]; exact Option.some_ne_none l₁)
  · exact ⟨fun _ _ hcreated => (by cases hcreated), h.timely⟩
  · exact h.clock

/-- What a redemption commits: one use more, and a member who was none. -/
def redeemed (l : ShareLinkRow) (m : MemberRow) : List Write := [.countUse l.id, .insertMember m]

theorem created_redeemed (l : ShareLinkRow) (m : MemberRow) (log : List Write) :
    created l.id ((redeemed l m).reverse ++ log) = m :: created l.id log := by
  have hpair : created l.id ((redeemed l m).reverse ++ log)
      = (((some (l.id, m)).filter fun c => c.1 = l.id).map Prod.snd).toList ++ created l.id log := rfl
  rw [hpair]
  simp [Option.filter]

theorem created_other {link : String} (hne : link ≠ l.id) (m : MemberRow) (log : List Write) :
    created link ((redeemed l m).reverse ++ log) = created link log := by
  have hpair : created link ((redeemed l m).reverse ++ log)
      = (((some (l.id, m)).filter fun c => c.1 = link).map Prod.snd).toList ++ created link log := rfl
  rw [hpair]
  simp [Option.filter, hne.symm]

/-- Nobody whom the link has made a member is made one again. -/
theorem Linked.new (h : Linked db₀ x) (hl : x.1.shareLinks.get l.id = some l) (hfree : x.1.members.Free m)
    (hactive : m.isActive) (hws : m.workspaceID = l.workspaceID) :
    m.userID ∉ (created l.id x.2).map MemberRow.userID := by
  intro hmem
  obtain ⟨m', hm', huser⟩ := List.mem_map.1 hmem
  obtain ⟨hws', hsome⟩ := h.joined l.id l hl m' hm'
  rw [hws', huser, ← hws, hfree.2 hactive] at hsome
  cases hsome

theorem Linked.redeem (h : Linked db₀ x) (hl : x.1.shareLinks.get l.id = some l) (hopen : l.revokedAt = none)
    (huses : l.uses < l.maxUses) (hfree : x.1.members.Free m) (hactive : m.isActive) (hws : m.workspaceID = l.workspaceID)
    (hread : db₀.clock ≤ m.createdAt) (hexpires : m.createdAt < l.expiresAt) :
    Linked db₀ (store.recorded.applyAll x (redeemed l m)) := by
  rw [Store.recorded_applyAll]
  have hold : ∀ link l', (store.applyAll x.1 (redeemed l m)).shareLinks.get link = some l' →
      ∃ l₁, x.1.shareLinks.get link = some l₁ ∧ l' = if link = l.id then l₁.countUse else l₁ :=
    fun link l' => link_update ShareLinkRow.countUse fun _ => rfl
  have huses' : ∀ l', x.1.shareLinks.get l.id = some l' → l'.countUse.uses ≤ l'.countUse.maxUses := by
    intro l' hl'
    cases Option.some.inj (hl.symm.trans hl')
    exact huses
  have htable := h.table.update (f := ShareLinkRow.countUse) (fun _ => rfl) (fun _ => rfl) huses'
  have hkept : ∀ ws user, (x.1.members.active ws user).isSome → ((x.1.members.insert m).active ws user).isSome := by
    intro ws user hsome
    obtain ⟨m', hm'⟩ := Option.isSome_iff_exists.1 hsome
    obtain ⟨hrow, hat⟩ := Members.active_eq_some.1 hm'
    exact Option.isSome_of_mem (Members.active_eq_some.2 ⟨Members.mem_insert.2 (.inl hrow), hat⟩)
  have hmember : ((x.1.members.insert m).active m.workspaceID m.userID).isSome :=
    Option.isSome_of_mem (Members.active_eq_some.2 ⟨Members.mem_insert.2 (.inr ⟨hfree, rfl⟩), decide_eq_true ⟨hactive, rfl⟩⟩)
  obtain ⟨l₀, hl₀, hsince⟩ := h.since l.id l hl
  have hid : l₀.id = l.id := Keyed.key_of_get hl₀
  obtain ⟨hopen₀, hnot⟩ := hsince.revoked hopen
  constructor
  · exact ⟨htable.codes, htable.uses⟩
  · intro link l' hl'
    obtain ⟨l₁, hl₁, rfl⟩ := hold link l' hl'
    obtain ⟨l₂, hl₂, hsince₁⟩ := h.since link l₁ hl₁
    have hid₁ : l₂.id = link := Keyed.key_of_get hl₂
    have hlog : l₁.revokedAt = none → l₂.revokedAt = none ∧
        ∀ now, Write.revokeShareLink l₂.id now ∉ (redeemed l m).reverse ++ x.2 := by
      intro hnone
      obtain ⟨hopen', hnot'⟩ := hsince₁.revoked hnone
      exact ⟨hopen', fun now => by simp [redeemed, hnot' now]⟩
    split
    · rename_i heq
      subst heq
      refine ⟨l₂, hl₂, ?_, ?_, hlog⟩
      · rw [← hsince₁.same]
        rfl
      · rw [hid₁, created_redeemed, List.length_cons, Nat.cast_add_one, ← add_assoc, ← hid₁, ← hsince₁.uses]
        rfl
    · rename_i hne
      refine ⟨l₂, hl₂, hsince₁.same, ?_, hlog⟩
      rw [hid₁, created_other hne, ← hid₁]
      exact hsince₁.uses
  · intro link l' hl' m' hm'
    obtain ⟨l₁, hl₁, rfl⟩ := hold link l' hl'
    split
    · rename_i heq
      subst heq
      rw [created_redeemed] at hm'
      cases Option.some.inj (hl.symm.trans hl₁)
      rcases List.mem_cons.1 hm' with rfl | hm'
      · exact ⟨hws, hmember⟩
      · obtain ⟨hws', hsome⟩ := h.joined l.id l hl m' hm'
        exact ⟨hws', hkept _ _ hsome⟩
    · rename_i hne
      rw [created_other hne] at hm'
      obtain ⟨hws', hsome⟩ := h.joined link l₁ hl₁ m' hm'
      exact ⟨hws', hkept _ _ hsome⟩
  · intro link hlink
    obtain ⟨l', hl'⟩ := Option.ne_none_iff_exists'.1 hlink
    obtain ⟨l₁, hl₁, -⟩ := hold link l' hl'
    have hdistinct := h.distinct link (by rw [hl₁]; exact Option.some_ne_none l₁)
    by_cases heq : link = l.id
    · subst heq
      rw [created_redeemed]
      exact List.nodup_cons.2 ⟨h.new hl hfree hactive hws, hdistinct⟩
    · rw [created_other heq]
      exact hdistinct
  · refine ⟨fun link m' hcreated => ?_, fun _ _ hcreated => (by cases hcreated), h.timely⟩
    cases hcreated
    refine ⟨hread, fun at' hmem => ?_, l₀, hl₀, hopen₀, ?_⟩
    · exact hnot at' (hid ▸ (List.mem_cons.1 hmem).resolve_left Write.noConfusion)
    · rw [← hsince.same] at hexpires
      exact hexpires
  · exact h.clock

end linked

/-! ## Redemptions and revocations -/

/-- A redemption inserts the member of a user who has no membership. -/
def joinsFreely : {β : Type} → Stmt β → Db → Bool
  | _, .insertMember id ws user role now true, db =>
    db.members.Free { id, workspaceID := ws, userID := user, role := role.1, createdAt := now }
  | _, _, _ => true

/-- The sessions over the recorded store, under the condition. -/
abbrev linkKeepers (db₀ : Db) : Protocol (store.recorded.checked (fun s x => joinsFreely s x.1) PgErr.unavailable) Unit :=
  keeping (store.recorded.checked (fun s x => joinsFreely s x.1) PgErr.unavailable) touches (fun r x y => same r x.1 y.1)
    (Store.unrecorded Env) (Linked db₀)

section sessions

variable {db₀ : Db} {α β : Type}

theorem reading_linkKeepers : Reading (linkKeepers db₀) := by
  intro β s hs
  refine kept_read fun held x o ho => ?_
  rcases eval_effect (Store.eval_checked ho).2 with hnone | ⟨w, -, -, heffect⟩
  · exact hnone
  · exact (hs x.1 w heffect).elim

theorem kept_revokeShareLink (svc : Service) (actor : Webx.Principal) (ws linkID : String) :
    Kept (linkKeepers db₀) (svc.revokeShareLink actor ws linkID) := by
  refine kept_requiring reading_linkKeepers (kept_bind (reading_linkKeepers _ fun _ _ he => he) fun now => ?_)
  refine kept_translate (kept_affecting (kept_query fun held x o hI ho => ?_))
  have heval : eval (.revokeShareLink ws linkID now) held x.1 = .ok o := (Store.eval_checked ho).2
  rcases eval_effect heval with hnone | ⟨w, hwrites, -, l, -, -, -, rfl⟩
  · rw [hnone]
    exact hI
  · rw [hwrites]
    exact hI.revoke l now

/-! ### The transaction of a redemption -/

/-- The transaction holds the lock of a link that is open at `now`, and has room for one use more. -/
structure LinkHeld (codeHash : String) (now : Time) (l : ShareLinkRow) (tx : Tx Resource Write) (x : Db × List Write) : Prop where
  lock : .shareLink l.id ∈ tx.locks
  row : x.1.shareLinks.get l.id = some l
  code : l.codeHash = codeHash
  live : l.revokedAt = none ∧ now < l.expiresAt ∧ l.uses < l.maxUses

/-- A redemption that is ready to commit. -/
structure Joining (l : ShareLinkRow) (m : MemberRow) (tx : Tx Resource Write) (x : Db × List Write) : Prop where
  writes : tx.writes = redeemed l m
  locks : .member m.id ∈ tx.locks ∧ .memberKey m.workspaceID m.userID ∈ tx.locks
  free : x.1.members.Free m
  active : m.isActive
  workspace : m.workspaceID = l.workspaceID

variable {codeHash ws user newID : String} {role : AssignedRole} {now : Time} {l : ShareLinkRow} {m : MemberRow}
  {tx : Tx Resource Write} {x y : Db × List Write}

theorem LinkHeld.rely (h : LinkHeld codeHash now l tx x) (hr : (linkKeepers db₀).Rely (some tx) x y) :
    LinkHeld codeHash now l tx y :=
  ⟨h.lock, (hr.locked tx rfl _ h.lock).symm.trans h.row, h.code, h.live⟩

theorem Joining.rely (h : Joining l m tx x) (hr : (linkKeepers db₀).Rely (some tx) x y) : Joining l m tx y := by
  obtain ⟨hid, hkey⟩ := h.locks
  have hmember : x.1.members.get m.id = y.1.members.get m.id := hr.locked tx rfl _ hid
  have hactive : (x.1.members.active m.workspaceID m.userID).isSome = (y.1.members.active m.workspaceID m.userID).isSome :=
    hr.locked tx rfl _ hkey
  refine ⟨h.writes, h.locks, ⟨hmember ▸ h.free.1, fun ha => ?_⟩, h.active, h.workspace⟩
  rw [h.free.2 ha] at hactive
  exact Option.not_isSome_iff_eq_none.1 (by rw [← hactive]; exact Bool.false_ne_true)

/-- The link is what a use of its code is counted for. -/
theorem LinkHeld.find (h : LinkHeld codeHash now l tx x) (htable : LinkTable x.1) :
    (x.1.shareLinks.find fun l => l.codeHash = codeHash) = some l := by
  have hrow := Keyed.mem_of_get h.row
  cases hfound : x.1.shareLinks.find fun l => l.codeHash = codeHash with
  | none => exact absurd (decide_eq_true h.code) (List.find?_eq_none.1 hfound l hrow)
  | some l' =>
    obtain ⟨hrow', hcode⟩ := Keyed.mem_of_find hfound
    rw [htable.codes l' hrow' l hrow ((of_decide_eq_true hcode).trans h.code.symm)]

/-- What is committed of a redemption: nothing, or the use of the link and the member. -/
def Redeems (now : Time) (t : Option (Tx Resource Write)) (x : Db × List Write) : Prop :=
  ∃ tx, t = some tx ∧ (tx.writes = [] ∨ ∃ codeHash l m, LinkHeld codeHash now l tx x ∧ Joining l m tx x ∧ m.createdAt = now)

/-- A statement that reads leaves what has been written. -/
theorem Redeems.read {o : Outcome Resource Write β} (h : tx.writes = [] ∨
    ∃ codeHash l m, LinkHeld codeHash now l tx x ∧ Joining l m tx x ∧ m.createdAt = now) (ho : o.writes = []) :
    Redeems now (some (tx.add o)) x := by
  have hwrites : (tx.add o).writes = tx.writes := by rw [Tx.add_writes, ho, List.append_nil]
  refine ⟨_, rfl, h.imp (fun hnone => hwrites.trans hnone) fun ⟨codeHash, l, m, hheld, hjoining, hnow⟩ => ?_⟩
  refine ⟨codeHash, l, m, ⟨List.mem_append_left _ hheld.lock, hheld.row, hheld.code, hheld.live⟩, ?_, hnow⟩
  obtain ⟨hid, hkey⟩ := hjoining.locks
  exact ⟨hwrites.trans hjoining.writes, ⟨List.mem_append_left _ hid, List.mem_append_left _ hkey⟩, hjoining.free,
    hjoining.active, hjoining.workspace⟩

theorem awp_countUse {done : List Unit} (h : LinkHeld codeHash now l tx x) (hnone : tx.writes = []) :
    (linkKeepers db₀).awp (fun _ _ _ => True) (Action.query (.countUse codeHash) : Act Unit)
      (fun _ _ t y => ∃ tx', t = some tx' ∧ tx'.writes = [.countUse l.id] ∧ LinkHeld codeHash now l tx' y) done (some tx) x := by
  refine awp_query (fun e => trivial) fun y hr => ⟨trivial, fun _ held o ho => ?_⟩
  have hheld := h.rely hr
  rw [hnone] at ho
  have heval : eval (.countUse codeHash) held y.1 = .ok o := (Store.eval_checked ho).2
  simp only [eval, hheld.find hr.inv.table] at heval
  rw [if_neg (not_lt.2 hheld.live.2.2)] at heval
  cases heval
  exact ⟨_, rfl, by rw [Tx.add_writes, hnone]; rfl, List.mem_append_left _ hheld.lock, hheld.row, hheld.code, hheld.live⟩

theorem awp_joinMember {done : List Unit} (h : LinkHeld codeHash now l tx x) (hws : l.workspaceID = ws)
    (hone : tx.writes = [.countUse l.id]) :
    (linkKeepers db₀).awp (fun _ _ _ => True) (Action.query (.insertMember newID ws user role now true) : Act Unit)
      (fun _ _ t y => Redeems now t y) done (some tx) x := by
  refine awp_query (fun e => trivial) fun y hr => ⟨trivial, fun _ held o ho => ?_⟩
  have hheld := h.rely hr
  rw [hone] at ho
  obtain ⟨hfree, heval⟩ := Store.eval_checked ho
  have heval : eval (.insertMember newID ws user role now true) held (y.1.updateShareLink l.id ShareLinkRow.countUse fun _ => rfl)
      = .ok o := heval
  have hfree : y.1.members.Free { id := newID, workspaceID := ws, userID := user, role := role.1, createdAt := now } :=
    of_decide_eq_true hfree
  have heval := (if_pos hfree).symm.trans heval
  split at heval
  · cases heval
  cases heval
  refine ⟨_, rfl, .inr ⟨codeHash, l, _, ?_, ⟨?_, ?_, hfree, rfl, hws.symm⟩, rfl⟩⟩
  · exact ⟨List.mem_append_left _ hheld.lock, hheld.row, hheld.code, hheld.live⟩
  · rw [Tx.add_writes, hone]
    rfl
  · exact ⟨List.mem_append_right _ (.head _), List.mem_append_right _ (.tail _ (.head _))⟩

theorem awp_redeemTx {done : List Unit} :
    (linkKeepers db₀).awp (fun _ _ _ => True) (Repo.redeemShareLinkTx newID codeHash user now)
      (fun _ _ t y => Redeems now t y) done (some Tx.empty) x := by
  refine awp_bind (awp_query (fun e => trivial) fun y hr => ⟨trivial, fun _ held o ho => ?_⟩)
  have heval : eval (.lockShareLink codeHash now) held y.1 = .ok o := (Store.eval_checked ho).2
  simp only [eval] at heval
  split at heval
  · cases heval
    exact awp_throw trivial
  rename_i l hfound
  cases heval
  obtain ⟨hrow, hcheck⟩ := Keyed.mem_of_find hfound
  obtain ⟨hcode, hlive⟩ := of_decide_eq_true hcheck
  have hheld : LinkHeld codeHash now l (Tx.empty.add ⟨some (l.workspaceID, l.role), [.shareLink l.id], []⟩) y :=
    ⟨.head _, Keyed.get_of_mem hrow, hcode, hlive⟩
  refine awp_bind (awp_query (fun e => trivial) fun y hr => ⟨trivial, fun _ held o ho => ?_⟩)
  cases (Store.eval_checked ho).2
  have hheld := hheld.rely hr
  refine awp_ite (fun _ => ?_) fun _ => ?_
  · refine awp_query (fun e => trivial) fun y hr => ⟨trivial, fun _ held o ho => ?_⟩
    cases (Store.eval_checked ho).2
    exact ⟨_, rfl, .inl rfl⟩
  -- The user is no member: a use is counted, and the member inserted.
  refine awp_bind (awp_mono ?_ (awp_countUse hheld rfl))
  rintro u done t y ⟨tx', rfl, hone, hheld⟩
  refine awp_bind (awp_mono ?_ (awp_mapErr (fun _ _ _ _ h => h) (awp_joinMember hheld rfl hone)))
  rintro u done t y ⟨tx', rfl, hredeems⟩
  refine awp_query (fun e => trivial) fun y' hr => ⟨trivial, fun _ held o ho => ?_⟩
  cases (Store.eval_checked ho).2
  refine Redeems.read (hredeems.imp_right ?_) rfl
  rintro ⟨codeHash, l, m, hheld, hjoining, hnow⟩
  exact ⟨codeHash, l, m, hheld.rely hr, hjoining.rely hr, hnow⟩

/-- A commit of a redemption. -/
theorem Redeems.commit (h : Redeems now (some tx) x) (hread : db₀.clock ≤ now) (hr : (linkKeepers db₀).Rely (some tx) x y) :
    Linked db₀ ((store.recorded.checked (fun s x => joinsFreely s x.1) PgErr.unavailable).applyAll y tx.writes) := by
  obtain ⟨tx', heq, hnone | ⟨codeHash, l, m, hheld, hjoining, hnow⟩⟩ := h
  · cases heq
    rw [hnone]
    exact hr.inv
  · cases heq
    have hheld := hheld.rely hr
    have hjoining := hjoining.rely hr
    obtain ⟨hopen, hexpires, huses⟩ := hheld.live
    rw [hjoining.writes]
    exact hr.inv.redeem hheld.row hopen huses hjoining.free hjoining.active hjoining.workspace (hnow ▸ hread) (hnow ▸ hexpires)

theorem kept_redeemShareLink (svc : Service) (actor : Webx.Principal) (code newID : String) :
    Kept (linkKeepers db₀) (svc.redeemShareLink actor code newID) := by
  refine kept_ite (fun _ => kept_refuse) fun _ => ?_
  intro done x
  refine awp_bind (awp_query_auto (fun e => rfl) fun y hr => ⟨trivial, fun _ held o ho => ?_⟩)
  cases (Store.eval_checked ho).2
  refine ⟨done, .stay, awp_inTx (fun e => rfl) fun y' hr' => awp_bind ?_⟩
  refine awp_fail_mono (awp_mono ?_ awp_redeemTx) fun _ _ _ _ => rfl
  intro ws done t z hredeems
  obtain ⟨tx, rfl, hrest⟩ := hredeems
  refine awp_bind (awp_commit (fun e => rfl) fun z' hr'' => ?_)
  have hcommitted := Redeems.commit ⟨tx, rfl, hrest⟩ hr.inv.clock hr''
  exact ⟨_, .commit (l := ()) hcommitted, fun e => rfl, awp_pure fun _ _ => rfl⟩

end sessions

/-! ## Runs -/

/-- A request that redeems or revokes a link. -/
def Call.OnLink : Call → Prop
  | .redeemShareLink .. => True
  | .revokeShareLink .. => True
  | _ => False

def LinkProgram (svc : Service) (m : Script (TxOp Stmt PgErr) (Except (Failure PgErr Err) Unit)) : Prop :=
  ∃ c : Call, m = c.program svc ∧ c.OnLink

theorem Call.OnLink.kept {svc : Service} {c : Call} (h : c.OnLink) (db₀ : Db) : Kept (linkKeepers db₀) (c.exec svc) := by
  cases c with
  | redeemShareLink actor code newID => exact kept_map (kept_redeemShareLink svc actor code newID)
  | revokeShareLink actor ws linkID => exact kept_revokeShareLink svc actor ws linkID
  | _ => exact h.elim

/-- A pool of workspace sessions over the recorded store. -/
abbrev RecordedPool :=
  Pool (TxOp Stmt PgErr) (Store.Sys (Db × List Write) Resource Write) (Except (Failure PgErr Err) Unit)

/-- Where redemptions only insert users who are no members, each link's uses are the users that it
has made members, up to its maximum, and while it was open. -/
theorem uses_are_joins (svc : Service) {db : Db} (htable : LinkTable db) {past : List RecordedPool} {p : RecordedPool}
    (h : Run (Pool.Next ((store.recorded.machine (Store.unrecorded Env)).given
      (store.recorded.passes fun s x => joinsFreely s x.1)) (LinkProgram svc)) (.idle (.quiet (db, []))) past p) :
    Accounted db p.shared.db := by
  have hrun := h.mono fun p p' hnext => Store.next_checked (e := PgErr.unavailable) hnext
  have hprogs : ∀ m, LinkProgram svc m → ∀ x, (linkKeepers db).wp m (Final fun _ _ _ => True) [] none x := by
    rintro m ⟨c, rfl, hc⟩ x
    exact (hc.kept db).program x
  have henv : ∀ x y, Linked db x → Store.unrecorded Env x y → Linked db y := fun x y hx he => hx.env he
  exact (keeping_run (Store.framed_recorded framed).checked henv hprogs (linked_start htable) hrun).accounted

/-! ### One user and two links -/

theorem member_ne_owner : Role.member ≠ Role.owner := by decide

def shareLink (id : String) : ShareLinkRow :=
  { id, workspaceID := "ws", codeHash := "00000000000000000000000" ++ id, codePrefix := "00000000", role := ⟨.member, member_ne_owner⟩
    maxUses := 5, expiresAt := 10, createdBy := "ann", createdAt := 0 }

/-- The workspace with two links, and users who are no members. -/
def linkDb : Db := { sharedDb with
  shareLinks := ⟨[shareLink "1", shareLink "2"], by decide⟩
  users user := some { email := user } }

theorem linkDb_table : LinkTable linkDb := by
  constructor
  · decide
  · decide

abbrev LinkTurns := List (Turn (TxOp Stmt PgErr) (Desk (Db × List Write) Resource Write) (Except (Failure PgErr Err) Unit))

/-- The redemption of a link by the user "zoe" gets as far as its `n`-th call. -/
def redeems (i n : Nat) (link newID : String) : LinkTurns :=
  [.start i ((Call.redeemShareLink { userID := "zoe" } (shareLink link).codeHash newID).program plainService), .calls i n]

variable {M : Machine (TxOp Stmt PgErr) (Desk (Db × List Write) Resource Write)}

theorem redeems_legal (i n : Nat) (link newID : String) :
    (redeems i n link newID).Forall (Turn.Legal M (LinkProgram plainService)) :=
  ⟨⟨_, rfl, trivial⟩, trivial⟩

def usesOf (link : String) (x : Db × List Write) : Option (Int × Nat) :=
  (x.1.shareLinks.get link).map fun l => (l.uses, (created link x.2).length)

theorem uses_are_joins_one : ∃ past p, Run (Pool.Next ((store.recorded.machine (Store.unrecorded Env)).given
      (store.recorded.passes fun s x => joinsFreely s x.1)) (LinkProgram plainService)) (.idle (.quiet (linkDb, []))) past p ∧
    usesOf "1" p.shared.db = some (1, 1) ∧ Accounted linkDb p.shared.db := by
  have hplay : (Pool.play (store.recorded.deskExec fun s x => joinsFreely s x.1) (redeems 0 8 "1" "m1")
      (.idle (.quiet 1 (linkDb, [])))).any fun p => usesOf "1" p.shared.db = some (1, 1) := by decide
  obtain ⟨past, p, hrun, hcheck⟩ :=
    Store.play_desk (redeems_legal 0 8 "1" "m1") (fun x => usesOf "1" x = some (1, 1)) hplay
  exact ⟨past, p, hrun, of_decide_eq_true hcheck, uses_are_joins plainService linkDb_table hrun⟩

/-- The user redeems the second link while a use of the first one is counted. -/
def redeemBoth : LinkTurns := redeems 0 5 "1" "m1" ++ redeems 1 8 "2" "m2" ++ [.calls 0 3]

theorem redeemBoth_legal : redeemBoth.Forall (Turn.Legal M (LinkProgram plainService)) :=
  List.forall_append.2 ⟨List.forall_append.2 ⟨redeems_legal 0 5 _ _, redeems_legal 1 8 _ _⟩, trivial⟩

theorem use_without_join : ¬ ∀ (svc : Service) (db : Db) (past : List RecordedPool) (p : RecordedPool), LinkTable db →
    Run (Pool.Next (store.recorded.machine (Store.unrecorded Env)) (LinkProgram svc)) (.idle (.quiet (db, []))) past p →
    Accounted db p.shared.db := by
  intro h
  have hplay : (Pool.play (store.recorded.deskExec fun _ _ => true) redeemBoth (.idle (.quiet 2 (linkDb, [])))).any
      fun p => usesOf "1" p.shared.db = some (1, 0) := by decide
  obtain ⟨past, p, hrun, hcheck⟩ := Store.play_desk redeemBoth_legal (fun x => usesOf "1" x = some (1, 0)) hplay
  have hplain := hrun.mono fun p p' hnext => hnext.of_given
  obtain ⟨l, hl, hcounts⟩ := Option.map_eq_some_iff.1 (of_decide_eq_true hcheck)
  obtain ⟨huses, hnone⟩ := Prod.mk.inj hcounts
  obtain ⟨l₀, hl₀, -, haccount⟩ := (h plainService linkDb past p linkDb_table hplain).uses "1" l hl
  cases hl₀
  rw [List.length_eq_zero_iff.1 hnone, huses] at haccount
  exact absurd haccount (by decide)

end Ploykit.Workspace

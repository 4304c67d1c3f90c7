import Ploykit.Accounts.Administrators

/-!
# Deleted accounts

`SoftDeleteUserTx` marks the user, frees the address, and drops tokens and links. Sessions die with
the status. The owners of workspaces are not looked at, and statements that have been prepared before come after.
-/

namespace Ploykit.Accounts

open Lib hiding Time
open Webx
open Identity (Time emailRe emailOK)

/-! ## Addresses -/

/-- Letters are mapped to letters, one by one. -/
def LowersLetters (toLower : String → String) : Prop :=
  ∃ f : Char → Char, (∀ s, toLower s = String.ofList (s.toList.map f)) ∧ (∀ c, f c = '@' ↔ c = '@') ∧ ∀ c, f c = '.' ↔ c = '.'

theorem lowersLetters_id : LowersLetters id := ⟨id, fun s => by simp, fun _ => Iff.rfl, fun _ => Iff.rfl⟩

/-- What comes after the first @ has another, or no dot. -/
theorem domain_of_split {l dom : List Char} (hdot : '.' ∉ dom) :
    '@' ∈ ((l ++ '@' :: dom).dropWhile (· ≠ '@')).drop 1 ∨ '.' ∉ ((l ++ '@' :: dom).dropWhile (· ≠ '@')).drop 1 := by
  induction l with
  | nil => exact .inr (by simpa using hdot)
  | cons c l ih =>
    by_cases hc : c = '@'
    · exact .inl (by simp [hc])
    · simpa [hc] using ih

theorem emailRe_of_split {l dom : List Char} (hdot : '.' ∉ dom) : emailRe (l ++ '@' :: dom) = false := by
  simp only [emailRe, decide_eq_false_iff_not]
  rintro ⟨-, -, hat, hmem⟩
  rcases domain_of_split (l := l) hdot with h | h
  · exact hat h
  · exact h (List.mem_of_mem_drop ((List.dropLast_sublist _).subset hmem))

theorem trimSpace_tombstone (id : String) : Strings.trimSpace (tombstone id) = tombstone id := by
  have hchars : (tombstone id).toList = 'd' :: ("eleted+".toList ++ id.toList ++ "@invali".toList) ++ ['d'] := by
    simp [tombstone]
  have hspace : Strings.isSpace 'd' = false := by decide
  have hkept : ((tombstone id).toList.dropWhile Strings.isSpace).reverse.dropWhile Strings.isSpace = (tombstone id).toList.reverse := by
    rw [hchars, List.cons_append, List.dropWhile_cons_of_neg (by simp [hspace]), ← List.cons_append, List.reverse_append,
      List.reverse_singleton, List.singleton_append, List.dropWhile_cons_of_neg (by simp [hspace])]
  rw [Strings.trimSpace, hkept, List.reverse_reverse, String.ofList_toList]

/-- Nobody has the address that a deleted account is left with. -/
theorem tombstone_rejected {toLower : String → String} (h : LowersLetters toLower) (id : String) :
    emailOK toLower (tombstone id) = false := by
  obtain ⟨f, hf, hat, hdot⟩ := h
  have hchars : (toLower (tombstone id)).toList = ("deleted+".toList ++ id.toList).map f ++ '@' :: "invalid".toList.map f := by
    have hsep : f '@' = '@' := (hat '@').2 rfl
    have hsplit : (tombstone id).toList = ("deleted+".toList ++ id.toList) ++ '@' :: "invalid".toList := by simp [tombstone]
    rw [hf, String.toList_ofList, hsplit, List.map_append, List.map_cons, hsep]
  have hdomain : '.' ∉ "invalid".toList.map f := by
    intro hmem
    obtain ⟨c, hc, heq⟩ := List.mem_map.1 hmem
    rw [(hdot c).1 heq] at hc
    exact absurd hc (by decide)
  simp only [emailOK, trimSpace_tombstone, decide_eq_false_iff_not]
  rintro ⟨-, hre⟩
  rw [hchars, emailRe_of_split hdomain] at hre
  cases hre

/-! ## What a deletion leaves -/

def World.Deleted (w : World) (id : String) : Prop := ∃ u, w.users.get id = some u ∧ u.status = .deleted

/-- The account is deleted, its address is free, and so are its identities. -/
structure World.Buried (w : World) (id : String) : Prop where
  user : ∃ u, w.users.get id = some u ∧ u.status = .deleted ∧ u.email = tombstone id
  links : ∀ l ∈ w.links.rows, l.userID ≠ id

/-- A workspace with owners has one that is not deleted. -/
def World.Owned (w : World) : Prop := ∀ o ∈ w.owners, ∃ id, (o.1, id) ∈ w.owners ∧ ¬ w.Deleted id

/-- No status is set and no identity linked of a deleted account. Whoever is deleted, or no longer an owner, leaves
each workspace another owner that is not, and whoever is deleted becomes the owner only of a workspace that has one. -/
def Query.Final : {β : Type} → Query β → World → Prop
  | _, .setUserStatus _ userID _, w => ¬ w.Deleted userID
  | _, .linkOAuthAccount _ _ userID, w => ¬ w.Deleted userID
  | _, .softDeleteUserTx _ userID _, w => ∀ u ws, w.users.get userID = some u → u.status = .active → (ws, userID) ∈ w.owners →
      ∃ id, id ≠ userID ∧ (ws, id) ∈ w.owners ∧ ¬ w.Deleted id
  | _, .setOwner ws userID true, w => ¬ w.Deleted userID ∨ ∃ id, (ws, id) ∈ w.owners ∧ ¬ w.Deleted id
  | _, .setOwner ws userID false, w => (∃ id, id ≠ userID ∧ (ws, id) ∈ w.owners) →
      ∃ id, id ≠ userID ∧ (ws, id) ∈ w.owners ∧ ¬ w.Deleted id
  | _, _, _ => True

section step

variable {cfg : Config} {w w' : World} {β : Type} {q : Query β} {r : Except Err β} {id : String} {γ : Progress}

theorem Query.Final.links {l : OAuthAccount} (hfinal : q.Final w) (h : q.Links l) : ¬ w.Deleted l.userID := by
  cases q with
  | linkOAuthAccount provider subject userID =>
    obtain rfl : l = ⟨provider, subject, userID⟩ := h
    exact hfinal
  | _ => exact h.elim

theorem World.Buried.congr (h : w.Buried id) (husers : w'.users = w.users) (hlinks : w'.links = w.links) : w'.Buried id where
  user := husers ▸ h.user
  links l hl := h.links l (hlinks ▸ hl)

/-- The deletion itself. -/
theorem World.Buried.softDelete {userID : String} {now : Time} (hmarks : w.users.get userID ≠ none) :
    (w.softDelete userID now).Buried userID where
  user := by
    obtain ⟨u, hu⟩ := Option.ne_none_iff_exists'.1 hmarks
    have hid : u.id = userID := Keyed.key_of_get hu
    exact ⟨u.tombstoned now, by rw [World.get_softDelete, if_pos rfl, hu]; rfl, rfl, congrArg tombstone hid⟩
  links l hl := by simpa using (Keyed.mem_drop.1 hl).2

theorem World.Buried.deleted (h : w.Buried id) : w.Deleted id := by
  obtain ⟨u, hu, hstatus, -⟩ := h.user
  exact ⟨u, hu, hstatus⟩

/-- What is deleted is so after a statement, too. -/
theorem World.Buried.effect (h : w.Buried id) (hfinal : q.Final w) : (q.effect cfg w r).Buried id where
  user := by
    obtain ⟨u, hu, hstatus, hemail⟩ := h.user
    have hgrows : w.Grows (q.effect cfg w r) := .of_effect q w r
    obtain ⟨u', hu', hbecomes⟩ := hgrows.users hu
    have hid : u.id = id := Keyed.key_of_get hu
    refine ⟨u', hu', ?_, ?_⟩
    · rcases Query.status_exec hu' with ⟨hnone, -⟩ | ⟨v, hv, hcase⟩
      · rw [hu] at hnone
        cases hnone
      · obtain rfl : u = v := Option.some.inj (hu.symm.trans hv)
        rcases hcase with hsame | hmarks
        · exact hsame.trans hstatus
        · cases q with
          | setUserStatus actor userID status => exact absurd h.deleted (hmarks.1 ▸ hfinal)
          | softDeleteUserTx => exact hmarks.2
          | _ => exact hmarks.elim
    · rcases hbecomes.email with he | he
      · exact he.trans hemail
      · exact he.trans (congrArg tombstone hid)
  links l hl := by
    rcases Query.mem_links (q := q) hl with hl | hrecorded
    · exact h.links l hl
    · rintro rfl
      exact hfinal.links (Query.links_of_mem (Query.mem_records hrecorded).2) h.deleted

/-- Nobody is deleted but by a statement that says so. -/
theorem Query.deleted_exec (h : (q.exec cfg w).2.Deleted id) : w.Deleted id ∨ q.Marks id .deleted := by
  obtain ⟨u', hu', hstatus⟩ := h
  rcases status_exec hu' with ⟨-, hactive⟩ | ⟨u, hu, hsame | hmarks⟩
  · rw [hstatus] at hactive
    cases hactive
  · exact .inl ⟨u, hu, hsame.symm.trans hstatus⟩
  · exact .inr (hstatus ▸ hmarks)

/-- A statement that is no deletion leaves live owners alive. -/
theorem World.Owned.frame (h : w.Owned) (howners : w'.owners = w.owners) (hlive : ∀ id, w'.Deleted id → w.Deleted id) :
    w'.Owned := by
  intro o ho
  rw [howners] at ho ⊢
  obtain ⟨id, hid, hdeleted⟩ := h o ho
  exact ⟨id, hid, fun hd => hdeleted (hlive id hd)⟩

/-- Workspaces keep an owner that is not deleted. -/
theorem World.Owned.exec (h : w.Owned) (hfinal : q.Final w) (hasks : γ.Asks q) : (q.exec cfg w).2.Owned := by
  cases q with
  | setOwner ws userID owner =>
    cases owner with
    | true =>
      have hdeleted : ∀ id, ¬ w.Deleted id → ¬ ((Query.setOwner ws userID true).exec cfg w).2.Deleted id := fun id hid => hid
      intro o ho
      rcases List.mem_cons.1 ho with rfl | ho
      · rcases hfinal with hlive | ⟨id, hid, hlive⟩
        · exact ⟨userID, List.mem_cons_self, hdeleted _ hlive⟩
        · exact ⟨id, List.mem_cons_of_mem _ hid, hdeleted _ hlive⟩
      · obtain ⟨id, hid, hlive⟩ := h o ho
        exact ⟨id, List.mem_cons_of_mem _ hid, hdeleted _ hlive⟩
    | false =>
      have howners : ∀ o, o ∈ ((Query.setOwner ws userID false).exec cfg w).2.owners ↔ o ∈ w.owners ∧ o ≠ (ws, userID) := by
        intro o
        exact List.mem_filter.trans (and_congr_right fun _ => decide_eq_true_iff)
      intro o ho
      obtain ⟨hmem, hne⟩ := (howners o).1 ho
      by_cases hws : o.1 = ws
      · have hother : o.2 ≠ userID := fun heq => hne (Prod.ext hws heq)
        obtain ⟨id, hid, hidmem, hlive⟩ := hfinal ⟨o.2, hother, hws ▸ hmem⟩
        refine ⟨id, (howners _).2 ⟨hws ▸ hidmem, fun heq => hid (congrArg Prod.snd heq)⟩, hlive⟩
      · obtain ⟨id, hid, hlive⟩ := h o hmem
        exact ⟨id, (howners _).2 ⟨hid, fun heq => hws (congrArg Prod.fst heq)⟩, hlive⟩
  | softDeleteUserTx actor userID now =>
    simp only [Query.exec]
    split
    · exact h
    · rename_i u hu
      split
      · rename_i hactive
        have hkept : ∀ id, id ≠ userID → ¬ w.Deleted id → ¬ (w.softDelete userID now).Deleted id := by
          rintro id hid hlive ⟨v, hv, hstatus⟩
          rw [World.get_softDelete, if_neg hid] at hv
          exact hlive ⟨v, hv, hstatus⟩
        intro o ho
        obtain ⟨id, hid, hlive⟩ := h o ho
        by_cases hself : id = userID
        · obtain ⟨id', hid', hmem, hlive'⟩ := hfinal u o.1 hu hactive (hself ▸ hid)
          exact ⟨id', hmem, hkept id' hid' hlive'⟩
        · exact ⟨id, hid, hkept id hself hlive⟩
      · exact h
  | setUserStatus actor userID status =>
    refine h.frame ?_ fun id hdeleted => (Query.deleted_exec hdeleted).resolve_right fun hmarks => hasks.2.1 hmarks.2
    simp only [Query.exec]
    split <;> rfl
  | _ =>
    refine h.frame ?_ fun id hdeleted => (Query.deleted_exec hdeleted).resolve_right fun hmarks => hmarks
    simp only [Query.exec, World.insertUser] <;> (repeat' split) <;> rfl

/-- All deletions on record are final, and workspaces are owned. -/
structure World.Cleared (w : World) : Prop where
  buried : ∀ id email, .deleted id email ∈ w.history → w.Buried id
  owned : w.Owned

theorem World.Cleared.effect (h : w.Cleared) (hfinal : q.Final w) (hasks : γ.Asks q) : (q.effect cfg w r).Cleared where
  buried id email hmem := by
    rcases Query.mem_history hmem rfl with ⟨hok, hmem⟩ | hmem
    · have hmarks := Query.marks_of_mem hmem
      cases q with
      | softDeleteUserTx actor userID now =>
        obtain rfl : userID = id := hmarks.1
        refine World.Buried.congr ?_ Query.effect_users Query.effect_links
        simp only [Query.exec] at hok ⊢
        split at hok
        · cases hok
        · rename_i u hu
          split at hok
          · rename_i hactive
            rw [if_pos hactive]
            exact .softDelete (by simp [hu])
          · cases hok
      | setUserStatus actor userID status => exact absurd hmarks.2 hasks.2.1
      | _ => exact hmarks.elim
    · exact (h.buried id email hmem).effect hfinal
  owned := h.owned.exec hfinal hasks

end step

/-! ## Runs -/

/-- Whatever is requested, where deletions are final. -/
abbrev deletionRuns (svc : Service) : Pool Op World (Except Err Reply) → Pool Op World (Except Err Reply) → Prop :=
  Pool.Next (machineGiven svc Query.Final) (Program svc fun _ => True)

section runs

variable {svc : Service} {w : World} {past past' : List (Pool Op World (Except Err Reply))}
  {p q : Pool Op World (Except Err Reply)}

theorem run_cleared (hhistory : w.history = []) (howned : w.Owned) (h : Run (deletionRuns svc) (.idle w) past p) :
    p.shared.Cleared := by
  have hinit : w.Cleared := by
    refine ⟨fun id email hmem => ?_, howned⟩
    rw [hhistory] at hmem
    cases hmem
  exact known_invariant h hinit (fun q w' r γ _ hfinal hasks _ hw' => hw'.effect hfinal hasks)
    fun w' t _ hw' => ⟨fun id email hmem => (hw'.buried id email hmem).congr rfl rfl, hw'.owned⟩

/-- After a deletion has returned, the user is deleted for ever, no credential is accepted as the user's, neither an address
that can be signed up with nor a third-party identity leads to the account, and no workspace has deleted owners only. -/
theorem deletion_is_final (hlower : LowersLetters svc.toLower) (hhistory : w.history = []) (howned : w.Owned)
    (h : Run (deletionRuns svc) (.idle w) past q) {i : Nat} {id : String}
    (hi : q.session i = some (.ret (.ok (.deleted id)))) (h' : Run (deletionRuns svc) q past' p) :
    p.shared.Deleted id ∧
    (∀ token now principal, p.shared.verify token now = some principal → principal.userID ≠ id) ∧
    (∀ token now principal, p.shared.resolve token now = some principal → principal.userID ≠ id) ∧
    (∀ email u, emailOK svc.toLower email → p.shared.users.find (·.email = email) = some u → u.id ≠ id) ∧
    (∀ provider subject l, p.shared.links.get (provider, subject) = some l → l.userID ≠ id) ∧
    ∀ o ∈ p.shared.owners, ∃ id', (o.1, id') ∈ p.shared.owners ∧ ¬ p.shared.Deleted id' := by
  obtain ⟨γ, -, hdeleted, hγ⟩ := run_replied h hi
  obtain ⟨email, hmem⟩ := hγ.deleted id hdeleted
  have hcleared : p.shared.Cleared := run_cleared hhistory howned (h.trans h')
  have hburied : p.shared.Buried id := hcleared.buried id email ((run_grows h').mem hmem)
  obtain ⟨u, hu, hstatus, hemail⟩ := hburied.user
  have hinactive : ∀ v : User, p.shared.users.get v.id = some v → v.status = .active → v.id ≠ id := by
    rintro v hv hactive rfl
    obtain rfl : u = v := Option.some.inj (hu.symm.trans hv)
    rw [hstatus] at hactive
    cases hactive
  refine ⟨hburied.deleted, fun token now principal hverify => ?_, fun token now principal hresolve => ?_,
    fun email v hok hfind => ?_, fun provider subject l hl => ?_, hcleared.owned⟩
  · obtain ⟨s, v, -, hv, -, hadmits, rfl⟩ := World.verify_some hverify
    have hkey : v.id = s.userID := Keyed.key_of_get hv
    simp only [User.admits, decide_eq_true_eq] at hadmits
    exact hinactive v (hkey ▸ hv) hadmits.1
  · obtain ⟨t, v, -, hv, hactive, rfl⟩ := World.resolve_some hresolve
    have hkey : v.id = t.userID := Keyed.key_of_get hv
    exact hinactive v (hkey ▸ hv) hactive
  · obtain ⟨hv, rfl⟩ := World.find_email hfind
    rintro rfl
    obtain rfl : u = v := Option.some.inj (hu.symm.trans hv)
    rw [hemail, tombstone_rejected hlower] at hok
    cases hok
  · exact hburied.links l (Keyed.mem_of_get hl)

end runs

/-! ### A deletion -/

/-- Both own a workspace. -/
def sharedWorld : World := { adminWorld with owners := [("w", "ann"), ("w", "bea")] }

def beaDeletes : Turns := asks 0 "t" .deleteMe 5

theorem beaDeletes_legal {M : Machine Op World} : beaDeletes.Forall (Turn.Legal M (Program plainService fun _ => True)) :=
  serves_legal trivial

theorem sharedWorld_owned : sharedWorld.Owned := by
  intro o ho
  refine ⟨"ann", ?_, ?_⟩
  · obtain rfl | rfl : o = ("w", "ann") ∨ o = ("w", "bea") := by simpa [sharedWorld] using ho
    · exact List.mem_cons_self
    · exact List.mem_cons_self
  · rintro ⟨u, hu, hdeleted⟩
    obtain rfl : admin "ann" = u := Option.some.inj hu
    cases hdeleted

/-- Of the two only the second is deleted, and nothing else happens. -/
def onlyBea {β : Type} (q : Query β) (w : World) : Bool :=
  match q with
  | .softDeleteUserTx _ userID _ => userID = "bea" ∧ (w.users.get "ann").any (fun u => u.status ≠ .deleted) ∧
      w.owners = [("w", "ann"), ("w", "bea")]
  | .setUserStatus _ _ _ => false
  | .linkOAuthAccount _ _ _ => false
  | .setOwner _ _ _ => false
  | _ => true

theorem onlyBea_final {β : Type} (q : Query β) (w : World) (h : onlyBea q w) : q.Final w := by
  cases q with
  | softDeleteUserTx actor userID now =>
    obtain ⟨rfl, hann, howners⟩ := of_decide_eq_true h
    intro u ws _ _ hws
    have hw : ws = "w" := by simpa [howners] using hws
    refine ⟨"ann", by decide, by simp [howners, hw], ?_⟩
    rintro ⟨u, hu, hdeleted⟩
    simp [hu, hdeleted] at hann
  | setUserStatus | linkOAuthAccount | setOwner => cases h
  | _ => trivial

theorem deletion_is_final_bea : ∃ past p, Run (deletionRuns plainService) (.idle sharedWorld) past p ∧
    p.session 0 = some (.ret (.ok (.deleted "bea"))) ∧ p.shared.Deleted "bea" ∧
    ∀ principal, p.shared.verify "t" 0 = some principal → principal.userID ≠ "bea" := by
  have hplay : (Pool.play (guarded (fun _ _ o w => o.passes onlyBea w) (execs noIdP)) beaDeletes (.idle sharedWorld)).any
      fun p => p.reply 0 = some (.ok (.deleted "bea")) := by decide
  obtain ⟨past, p, hrun, hcheck⟩ := Pool.play_any (guarded_execs onlyBea_final) beaDeletes_legal hplay
  have hsession := Pool.session_of_reply (of_decide_eq_true hcheck)
  obtain ⟨hdeleted, hverify, -⟩ := deletion_is_final lowersLetters_id rfl sharedWorld_owned hrun hsession .start
  exact ⟨past, p, hrun, hsession, hdeleted, hverify "t" 0⟩

theorem deletion_undone : ¬ ∀ (svc : Service) (w : World), LowersLetters svc.toLower → w.history = [] → w.Owned →
    ∀ past past' (q p : Pool Op World (Except Err Reply)) i id,
      Run (Pool.Next (machine svc) (Program svc fun _ => True)) (.idle w) past q →
      q.session i = some (.ret (.ok (.deleted id))) →
      Run (Pool.Next (machine svc) (Program svc fun _ => True)) q past' p → p.shared.Deleted id := by
  intro h
  have hfirst : (Pool.play (execs noIdP) beaDeletes (.idle sharedWorld)).any fun q =>
      q.reply 0 = some (.ok (.deleted "bea")) ∧
        (Pool.play (execs noIdP) (asks 1 "s" (.setUserStatus "bea" "active") 4) q).any fun p =>
          (p.shared.users.get "bea").any fun u => u.status = .active := by decide
  obtain ⟨past, q, hrun, hcheck⟩ := Pool.play_any execs_step beaDeletes_legal hfirst
  obtain ⟨hreply, hsecond⟩ := of_decide_eq_true hcheck
  have henables : (asks 1 "s" (.setUserStatus "bea" "active") 4).Forall
      (Turn.Legal (machine plainService) (Program plainService fun _ => True)) := serves_legal trivial
  obtain ⟨past', p, hrun', hcheck'⟩ := Pool.play_any execs_step henables hsecond
  obtain ⟨u, hu, hactive⟩ := (Option.any_eq_true _ _).1 hcheck'
  obtain ⟨v, hv, hdeleted⟩ := h plainService sharedWorld lowersLetters_id rfl sharedWorld_owned past past' q p 0 "bea" hrun
    (Pool.session_of_reply hreply) hrun'
  obtain rfl : u = v := Option.some.inj (hu.symm.trans hv)
  rw [of_decide_eq_true hactive] at hdeleted
  cases hdeleted

end Ploykit.Accounts

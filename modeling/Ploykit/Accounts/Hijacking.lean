import Ploykit.Accounts.Growth

/-!
# Accounts of other people's addresses

Anyone registers with an address and a password, and the owner of the mailbox enters the same
account later, by a code or through a third party. Neither way looks at what it finds there.
-/

namespace Ploykit.Accounts

open Lib hiding Time
open Webx
open Identity (Time hour)

/-! ## The requests -/

/-- The ways into an account. -/
def entryCalls : Call → Prop
  | .register .. => True
  | .loginWithPassword .. => True
  | .verifyCode .. => True
  | .oauthLogin .. => True
  | .fedLogin .. => True
  | _ => False

/-- The statements of these requests. -/
def Query.OfEntries : {β : Type} → Query β → Prop
  | _, .getUser _ => True
  | _, .getUserByEmail _ => True
  | _, .upsertUserByEmail _ _ _ => True
  | _, .createUserWithPassword _ _ _ _ => True
  | _, .setEmailVerified _ _ => True
  | _, .createSession _ _ _ _ _ impersonatedBy _ => impersonatedBy = none
  | _, .findOAuthAccount _ _ => True
  | _, .linkOAuthAccount _ _ _ => True
  | _, .getFedProvider _ => True
  | _, _ => False

section keeps

open Lib.Proc

variable {svc : Service} {party : Party} {newID newToken email : String}

abbrev OfEntries {α : Type} (m : Proc α) : Prop := Keeps Query.OfEntries m

theorem ofEntries_signupBlocked : OfEntries (svc.signupBlocked email) := by
  have hsettings : OfEntries svc.signupSettings := issues_ite (fun _ => issues_ask trivial) fun _ => issues_pure
  exact issues_bind hsettings fun _ => issues_pure

theorem ofEntries_register {rawEmail password displayName : String} :
    OfEntries (svc.register party newID newToken rawEmail password displayName) := by
  refine issues_ite (fun _ => keeps_refuse) fun _ => issues_ite (fun _ => keeps_refuse) fun _ => ?_
  refine issues_ite (fun _ => keeps_refuse) fun _ => issues_bind ofEntries_signupBlocked fun blocked => ?_
  refine issues_ite (fun _ => keeps_refuse) fun _ => issues_bind (issues_attempt trivial) fun hash => ?_
  exact issues_bind (keeps_dbOr trivial) fun user => keeps_createSession fun _ => rfl

theorem ofEntries_enter {proof : Proof} : OfEntries (svc.enter party proof newID newToken email) := by
  have henters : OfEntries (svc.mayEnter email) := by
    refine issues_bind ofEntries_signupBlocked fun blocked => issues_ite (fun _ => issues_pure) fun _ => ?_
    exact issues_bind (keeps_db trivial) fun _ => issues_pure
  refine issues_bind henters fun enters => issues_ite (fun _ => keeps_refuse) fun _ => ?_
  refine issues_bind (keeps_db trivial) fun existing => issues_bind (issues_ask trivial) fun now => ?_
  refine issues_bind (keeps_db trivial) fun user => issues_ite (fun _ => keeps_refuse) fun _ => ?_
  exact keeps_createSession fun _ => rfl

theorem ofEntries_verifyCode {ipHash rawEmail code : String} :
    OfEntries (svc.verifyCode party newID newToken ipHash rawEmail code) := by
  refine issues_ite (fun _ => keeps_refuse) fun _ => issues_ite (fun _ => keeps_refuse) fun _ => ?_
  refine issues_ite (fun _ => ofEntries_enter) fun _ => ?_
  exact issues_bind (issues_attempt trivial) fun _ => ofEntries_enter

theorem ofEntries_linkOAuthIdentity {id : OAuthIdentity} : OfEntries (svc.linkOAuthIdentity newID id) := by
  refine issues_ite (fun _ => keeps_refuse) fun _ => issues_ite (fun _ => keeps_refuse) fun _ => ?_
  refine issues_bind (keeps_db trivial) fun uid => ?_
  cases uid with
  | some uid => exact issues_bind (keeps_dbOr trivial) fun _ => issues_pure
  | none =>
    refine issues_bind (keeps_db trivial) fun user => ?_
    cases user with
    | some u =>
      exact issues_ite (fun _ => keeps_refuse) fun _ => issues_bind (keeps_db trivial) fun _ => issues_pure
    | none =>
      refine issues_bind ofEntries_signupBlocked fun blocked => issues_ite (fun _ => keeps_refuse) fun _ => ?_
      refine issues_bind (issues_ask trivial) fun now => issues_bind (keeps_db trivial) fun u => ?_
      refine issues_ite (fun _ => keeps_refuse) fun _ => issues_bind (issues_ask trivial) fun now' => ?_
      exact issues_bind (keeps_db trivial) fun _ => issues_bind (keeps_db trivial) fun _ => issues_pure

theorem ofEntries_oauthCallback {name code state : String} {cookie : Option String} :
    OfEntries (svc.oauthCallback newID name cookie code state) := by
  refine issues_bind (issues_ask trivial) fun available => issues_ite (fun _ => keeps_refuse) fun _ => ?_
  refine issues_ite (fun _ => keeps_refuse) fun _ => issues_bind (issues_attempt trivial) fun id => ?_
  exact ofEntries_linkOAuthIdentity

theorem ofEntries_fedProvider {workspaceID : String} : OfEntries (Service.fedProvider workspaceID) := by
  refine issues_bind (keeps_db trivial) fun row => ?_
  cases row with
  | none => exact keeps_refuse
  | some row =>
    refine issues_bind (issues_ask trivial) fun unsealed => issues_ite (fun _ => keeps_refuse) fun _ => ?_
    exact issues_bind (issues_ask trivial) fun resolved => issues_ite (fun _ => keeps_refuse) fun _ => issues_pure

theorem ofEntries_fedCallback {cookie : Option FedLoginCookie} {code state : String} :
    OfEntries (svc.fedCallback newID cookie code state) := by
  cases cookie with
  | none => exact keeps_refuse
  | some fc =>
    refine issues_ite (fun _ => keeps_refuse) fun _ => issues_ite (fun _ => keeps_refuse) fun _ => ?_
    refine issues_bind ofEntries_fedProvider fun row => issues_bind (issues_attempt trivial) fun id => ?_
    exact issues_bind ofEntries_linkOAuthIdentity fun _ => issues_pure

theorem ofEntries_completeThirdPartyLogin {res : ThirdPartyLinkResult} :
    OfEntries (Service.completeThirdPartyLogin party newToken res) :=
  issues_bind (keeps_db trivial) fun _ => keeps_createSession fun _ => rfl

theorem ofEntries_call {c : Call} (h : entryCalls c) : OfEntries (c.exec svc) := by
  cases c with
  | register => exact issues_bind ofEntries_register fun _ => issues_pure
  | loginWithPassword =>
    exact issues_bind (keeps_loginWithPassword (fun _ => trivial) fun _ _ _ => rfl) fun _ => issues_pure
  | verifyCode => exact issues_bind ofEntries_verifyCode fun _ => issues_pure
  | oauthLogin =>
    refine issues_bind ofEntries_oauthCallback fun res => ?_
    exact issues_bind ofEntries_completeThirdPartyLogin fun _ => issues_pure
  | fedLogin =>
    refine issues_bind ofEntries_fedCallback fun r => ?_
    exact issues_bind ofEntries_completeThirdPartyLogin fun _ => issues_pure
  | _ => exact h.elim

end keeps

/-! ## Entries -/

/-- By this record the party has entered the account on a proof of the mailbox. -/
def Proved (history : List Event) (userID : String) (party : Party) : Prop :=
  ∃ s, .opened s ∈ history ∧ s.userID = userID ∧ s.openedBy = party ∧ s.proof = .mailbox

theorem Proved.mono {history history' : List Event} {userID : String} {party : Party} (h : Proved history userID party)
    (hsub : history ⊆ history') : Proved history' userID party := by
  obtain ⟨s, hs, hrest⟩ := h
  exact ⟨s, hsub hs, hrest⟩

/-- Whoever proves the mailbox of an account finds there no password and no session that is alive
but of parties that have proved it, too. -/
def Query.Unclaimed : {β : Type} → Query β → World → Prop
  | _, .createSession party .mailbox _ userID _ _ now, w =>
    (∀ u P, w.users.get userID = some u → u.registeredBy = some P → P = party ∨ Proved w.history userID P) ∧
    ∀ token s, w.sessions.get token = some s → s.userID = userID → s.dead now = false →
      s.openedBy = party ∨ Proved w.history userID s.openedBy
  | _, _, _ => True

/-- What the entry `s` has found, where `history` ends with it. -/
structure Clean (w : World) (history : List Event) (s : Session) : Prop where
  sessions : ∀ s', .opened s' ∈ history → s'.userID = s.userID → s'.dead s.createdAt = false →
    Proved history s.userID s'.openedBy
  password : ∀ u P, w.users.get s.userID = some u → u.registeredBy = some P → Proved history s.userID P

/-- The sessions are those on record, and every proof of a mailbox has found the account clean. -/
structure World.Unhijacked (w : World) : Prop where
  recorded : ∀ token s, w.sessions.get token = some s → .opened s ∈ w.history
  kept : ∀ s, .opened s ∈ w.history → w.sessions.get s.token = some s
  users : ∀ s, .opened s ∈ w.history → ∃ u, w.users.get s.userID = some u
  entered : ∀ s earlier, .opened s :: earlier <:+ w.history → s.proof = .mailbox → Clean w (.opened s :: earlier) s

section step

variable {cfg : Config} {w w' : World} {β : Type} {q : Query β}

/-- A statement of an entry leaves the sessions, or opens one. -/
theorem Query.entries_cases (h : q.OfEntries) (cfg : Config) (w : World) :
    ((q.exec cfg w).2.sessions = w.sessions ∧ ∀ s, .opened s ∉ q.records cfg w) ∨
    ∃ s hfresh, q.Opens cfg w s ∧ (q.exec cfg w).2.sessions = w.sessions.insert s hfresh ∧ q.records cfg w = [.opened s] := by
  cases q with
  | createSession party proof newToken userID passwordConfirmed impersonatedBy now =>
    obtain rfl : impersonatedBy = none := h
    rcases createSession_cases cfg w party proof newToken userID passwordConfirmed none now with
      ⟨e, hexec⟩ | ⟨u, exp, hu, hfresh, hexec⟩
    · refine .inl ⟨by rw [hexec], fun s => ?_⟩
      rw [records_of_error (congrArg Prod.fst hexec)]
      exact List.not_mem_nil
    · refine .inr ⟨_, hfresh, ⟨u, hu, rfl⟩, by rw [hexec], ?_⟩
      rw [records_of_ok (congrArg Prod.fst hexec), events, hu]
      rfl
  | linkOAuthAccount provider subject userID =>
    refine .inl ⟨exec_sessions Bool.false_ne_true, fun s hs => ?_⟩
    cases List.mem_singleton.1 (mem_records hs).2
  | getUser | getUserByEmail | upsertUserByEmail | createUserWithPassword | setEmailVerified | findOAuthAccount
  | getFedProvider => exact .inl ⟨exec_sessions Bool.false_ne_true, fun s hs => List.not_mem_nil (mem_records hs).2⟩
  | _ => exact h.elim

theorem Query.answered_ofEntries (h : q.OfEntries) {r : Except Err β} : q.answered w r = [] := by
  cases q with
  | verifySession => exact h.elim
  | _ => rfl

theorem Clean.grows {history : List Event} {s : Session} (h : Clean w history s) (hgrows : w.Grows w')
    (huser : ∃ u, w.users.get s.userID = some u) : Clean w' history s where
  sessions := h.sessions
  password u' P hu' hP := by
    obtain ⟨u, hu⟩ := huser
    obtain ⟨u'', hu'', hbecomes⟩ := hgrows.users hu
    obtain rfl : u' = u'' := Option.some.inj (hu'.symm.trans hu'')
    exact h.password u P hu (hbecomes.registeredBy ▸ hP)

namespace World.Unhijacked

/-- Nothing is recorded of sessions, and none has changed. -/
theorem quiet (h : w.Unhijacked) (hgrows : w.Grows w') (hsessions : w'.sessions = w.sessions) {es : List Event}
    (hhistory : w'.history = es ++ w.history) (hes : ∀ s, .opened s ∉ es) : w'.Unhijacked := by
  have hold : ∀ s, .opened s ∈ w'.history → .opened s ∈ w.history := by
    intro s hs
    rw [hhistory] at hs
    exact (List.mem_append.1 hs).resolve_left (hes s)
  have hopened : ∀ s earlier, .opened s :: earlier <:+ w'.history → .opened s :: earlier <:+ w.history := by
    intro s earlier hsuffix
    rw [hhistory] at hsuffix
    clear hhistory hold
    induction es with
    | nil => exact hsuffix
    | cons e es ih =>
      rcases List.suffix_cons_iff.1 hsuffix with heq | hsuffix
      · cases heq
        exact absurd List.mem_cons_self (hes s)
      · exact ih (fun s hs => hes s (List.mem_cons_of_mem _ hs)) hsuffix
  refine ⟨fun token s hs => ?_, fun s hs => ?_, fun s hs => ?_, fun s earlier hsuffix hproof => ?_⟩
  · exact hgrows.mem (h.recorded token s (hsessions ▸ hs))
  · rw [hsessions]
    exact h.kept s (hold s hs)
  · obtain ⟨u, hu⟩ := h.users s (hold s hs)
    obtain ⟨u', hu', -⟩ := hgrows.users hu
    exact ⟨u', hu'⟩
  · have hmem : .opened s ∈ w.history := (hopened s earlier hsuffix).subset List.mem_cons_self
    exact (h.entered s earlier (hopened s earlier hsuffix) hproof).grows hgrows (h.users s hmem)

/-- A session is opened, on a proof of the mailbox only where there is nothing else. -/
theorem openSession (h : w.Unhijacked) {s : Session} {u : User} (hu : w.users.get s.userID = some u)
    (hfresh : w.sessions.get s.token = none) (husers : w'.users = w.users) (hsessions : w'.sessions = w.sessions.insert s hfresh)
    (hhistory : w'.history = .opened s :: w.history)
    (hclean : s.proof = .mailbox → (∀ P, u.registeredBy = some P → P = s.openedBy ∨ Proved w.history s.userID P) ∧
      ∀ token s', w.sessions.get token = some s' → s'.userID = s.userID → s'.dead s.createdAt = false →
        s'.openedBy = s.openedBy ∨ Proved w.history s.userID s'.openedBy) : w'.Unhijacked := by
  have hget : ∀ token, w'.sessions.get token = if s.token = token then some s else w.sessions.get token := by
    intro token
    rw [hsessions, Keyed.get_insert]
  have hcases : ∀ s', .opened s' ∈ w'.history → s' = s ∨ .opened s' ∈ w.history := by
    intro s' hs'
    rw [hhistory] at hs'
    rcases List.mem_cons.1 hs' with heq | hs'
    · cases heq
      exact .inl rfl
    · exact .inr hs'
  have hold : w.history ⊆ .opened s :: w.history := fun _ he => List.mem_cons_of_mem _ he
  refine ⟨fun token s' hs' => ?_, fun s' hs' => ?_, fun s' hs' => ?_, fun s' earlier hsuffix hproof => ?_⟩
  · rw [hhistory]
    rw [hget] at hs'
    split at hs'
    · cases hs'
      exact List.mem_cons_self
    · exact hold (h.recorded token s' hs')
  · rw [hget]
    rcases hcases s' hs' with rfl | hs'
    · exact if_pos rfl
    · have hother : s.token ≠ s'.token := by
        intro heq
        rw [heq, h.kept s' hs'] at hfresh
        cases hfresh
      rw [if_neg hother]
      exact h.kept s' hs'
  · rw [husers]
    rcases hcases s' hs' with rfl | hs'
    · exact ⟨u, hu⟩
    · exact h.users s' hs'
  · rw [hhistory] at hsuffix
    rcases List.suffix_cons_iff.1 hsuffix with heq | hsuffix
    · cases heq
      obtain ⟨hpassword, hothers⟩ := hclean hproof
      have hself : Proved (.opened s :: w.history) s.userID s.openedBy := ⟨s, List.mem_cons_self, rfl, rfl, hproof⟩
      have hproved : ∀ P, P = s.openedBy ∨ Proved w.history s.userID P → Proved (.opened s :: w.history) s.userID P := by
        intro P hP
        rcases hP with rfl | hP
        · exact hself
        · exact hP.mono hold
      refine ⟨fun s' hs' huser hlive => ?_, fun u' P hu' hP => hproved P ?_⟩
      · rcases List.mem_cons.1 hs' with heq | hs'
        · cases heq
          exact hself
        · exact hproved _ (hothers s'.token s' (h.kept s' hs') huser hlive)
      · rw [husers] at hu'
        obtain rfl : u = u' := Option.some.inj (hu.symm.trans hu')
        exact hpassword P hP
    · have hkept := h.entered s' earlier hsuffix hproof
      exact ⟨hkept.sessions, fun u' P hu' => hkept.password u' P (husers ▸ hu')⟩

theorem effect (h : w.Unhijacked) (hentries : q.OfEntries) (hunclaimed : q.Unclaimed w) {r : Except Err β} :
    (q.effect cfg w r).Unhijacked := by
  have hhistory : (q.effect cfg w r).history = q.records cfg w ++ w.history := by
    rw [Query.effect_history, Query.answered_ofEntries hentries, List.nil_append]
  rcases Query.entries_cases hentries cfg w with ⟨hsessions, hquiet⟩ | ⟨s, hfresh, hopens, hsessions, hrecords⟩
  · exact h.quiet (.of_effect q w r) hsessions hhistory hquiet
  · rw [hrecords] at hhistory
    cases q with
    | createSession party proof newToken userID passwordConfirmed impersonatedBy now =>
      obtain ⟨u, hu, rfl⟩ := hopens
      have huser : u.id = userID := Keyed.key_of_get hu
      subst huser
      refine h.openSession hu hfresh (Query.exec_users Bool.false_ne_true) hsessions hhistory fun hproof => ?_
      obtain rfl : proof = .mailbox := hproof
      exact ⟨fun P => hunclaimed.1 u P hu, hunclaimed.2⟩
    | _ => exact hopens.elim

end World.Unhijacked

end step

/-! ## Runs -/

/-- The ways into accounts, where a proof of the mailbox finds nothing of others. -/
abbrev entryRuns (svc : Service) : Pool Op World (Except Err Reply) → Pool Op World (Except Err Reply) → Prop :=
  Pool.Next (machineGiven svc Query.Unclaimed) (Program svc entryCalls)

/-- There are no accounts yet. -/
structure World.Unentered (w : World) : Prop where
  users : w.users = .empty
  sessions : w.sessions = .empty
  history : w.history = []

section runs

variable {svc : Service} {w : World} {past : List (Pool Op World (Except Err Reply))} {p : Pool Op World (Except Err Reply)}

theorem World.Unentered.unhijacked (h : w.Unentered) : w.Unhijacked := by
  have hnone : ∀ e, e ∉ w.history := by
    rw [h.history]
    exact fun _ => List.not_mem_nil
  refine ⟨fun token s hs => ?_, fun s hs => absurd hs (hnone _), fun s hs => absurd hs (hnone _), fun s earlier hsuffix => ?_⟩
  · rw [h.sessions] at hs
    cases hs
  · exact absurd (hsuffix.subset List.mem_cons_self) (hnone _)

theorem run_unhijacked (hw : w.Unentered) (h : Run (entryRuns svc) (.idle w) past p) : p.shared.Unhijacked := by
  have hcalls : ∀ m, Program svc entryCalls m → m.Calls fun o => o.Within Query.OfEntries := by
    rintro m ⟨c, hc, rfl⟩
    exact (ofEntries_call hc).calls
  refine run_invariant (run_within h hcalls (Pool.calls_idle w)) hw.unhijacked ?_ ?_
  · exact fun q w r _ hC hw => hw.effect hC.1 hC.2
  · exact fun w t _ hw => ⟨hw.1, hw.2, hw.3, fun s earlier hsuffix hproof => ⟨(hw.4 s earlier hsuffix hproof).1, (hw.4 s earlier hsuffix hproof).2⟩⟩

/-- After a proof of the mailbox, no session gives access that was opened before by a party without such
a proof, and none is opened on a password that such a party has set. -/
theorem proof_of_mailbox_clears (hw : w.Unentered) (h : Run (entryRuns svc) (.idle w) past p) {s : Session}
    {later earlier : List Event} (hentered : p.shared.history = later ++ .opened s :: earlier) (hproof : s.proof = .mailbox) :
    (∀ s', .opened s' ∈ earlier → s'.userID = s.userID → ¬ Proved (.opened s :: earlier) s.userID s'.openedBy →
      ∀ now, s.createdAt ≤ now → p.shared.verify s'.token now = none) ∧
    ∀ u P, p.shared.users.get s.userID = some u → u.registeredBy = some P → ¬ Proved (.opened s :: earlier) s.userID P →
      ∀ s', .opened s' ∈ later → s'.userID = s.userID → ∀ generation, s'.proof ≠ .password generation := by
  have hunhijacked : p.shared.Unhijacked := run_unhijacked hw h
  have hsuffix : .opened s :: earlier <:+ p.shared.history := ⟨later, hentered.symm⟩
  have hclean : Clean p.shared (.opened s :: earlier) s := hunhijacked.entered s earlier hsuffix hproof
  refine ⟨fun s' hs' huser hunproved now hlater => ?_, fun u P hu hP hunproved => ?_⟩
  · cases hverify : p.shared.verify s'.token now with
    | none => rfl
    | some principal =>
      obtain ⟨s'', u, hs'', -, hlive, -⟩ := World.verify_some hverify
      have hkept := hunhijacked.kept s' (hsuffix.subset (List.mem_cons_of_mem _ hs'))
      obtain rfl : s' = s'' := Option.some.inj (hkept.symm.trans hs'')
      have hlive' : s'.dead s.createdAt = false := by
        cases hdead : s'.dead s.createdAt with
        | false => rfl
        | true =>
          have hdead' : s'.dead now := s'.dead_mono hdead hlater
          rw [hlive] at hdead'
          cases hdead'
      exact absurd (hclean.sessions s' (List.mem_cons_of_mem _ hs') huser hlive') hunproved
  · exact absurd (hclean.password u P hu hP) hunproved

end runs

/-! ### Two orders of entry -/

def bob : User := { id := "bob", email := "bob@example.com" }

/-- A session of `bob`. -/
def bobSession (party : Party) (proof : Proof) (newToken : String) (passwordConfirmed : Bool) (now : Time) : Session :=
  plainService.cfg.session party proof newToken passwordConfirmed none now bob

def bobRegisters : Turns := serves 0 (.register 1 "bob" "r" "bob@example.com" "Tr0ub4dor&3" "Bob") 4

def enters (party : Party) (n : Nat) : Turns := serves 1 (.verifyCode party "x" "c" "" "bob@example.com" "123456") n

/-- The password is given to another. -/
def shares : Turns := serves 2 (.loginWithPassword 2 "l" "" "bob@example.com" "Tr0ub4dor&3") 4

theorem enters_legal {M : Machine Op World} {party : Party} {n : Nat} :
    (enters party n).Forall (Turn.Legal M (Program plainService entryCalls)) := serves_legal trivial

theorem bobRegisters_legal {M : Machine Op World} : bobRegisters.Forall (Turn.Legal M (Program plainService entryCalls)) :=
  serves_legal trivial

/-- Whoever proves the mailbox has set the password and opened the sessions that are alive. -/
def ownAccount {β : Type} (q : Query β) (w : World) : Bool :=
  match q with
  | .createSession party .mailbox _ userID _ _ now =>
    (w.users.get userID).all (fun u => u.registeredBy.all (· = party)) ∧
      w.sessions.rows.all fun s => s.userID = userID → s.dead now = false → s.openedBy = party
  | _ => true

theorem ownAccount_unclaimed {β : Type} (q : Query β) (w : World) (h : ownAccount q w) : q.Unclaimed w := by
  cases q with
  | createSession party proof newToken userID passwordConfirmed impersonatedBy now =>
    cases proof with
    | mailbox =>
      obtain ⟨hpassword, hsessions⟩ := of_decide_eq_true h
      refine ⟨fun u P hu hP => .inl ?_, fun token s hs huser hlive => .inl ?_⟩
      · simpa [hu, hP] using hpassword
      · simpa [huser, hlive] using List.all_eq_true.1 hsessions s (Keyed.mem_of_get hs)
    | _ => trivial
  | _ => trivial

/-- The event is an entry of the party on a proof of the mailbox. -/
def Event.proves (party : Party) : Event → Bool
  | .opened s => s.openedBy = party ∧ s.proof = .mailbox
  | _ => false

theorem unproved_of_all {history : List Event} {userID : String} {party : Party} (h : history.all fun e => ¬ e.proves party) :
    ¬ Proved history userID party := by
  rintro ⟨s, hs, -, hparty, hproof⟩
  have hnot := List.all_eq_true.1 h _ hs
  simp [Event.proves, hparty, hproof] at hnot

/-- Bob registers and shares the password, and proves the mailbox when the session of the other has expired. -/
theorem proof_of_mailbox_clears_bob : ∃ past p, Run (entryRuns plainService) (.idle emptyWorld) past p ∧
    .opened (bobSession 2 (.password 0) "l" true 0) ∈ p.shared.history ∧
    .opened (bobSession 1 .mailbox "c" false hour) ∈ p.shared.history ∧ p.shared.verify "l" hour = none := by
  have hlegal : (bobRegisters ++ shares ++ later hour.toNat ++ enters 1 6).Forall
      (Turn.Legal (machineGiven plainService Query.Unclaimed) (Program plainService entryCalls)) := by
    refine List.forall_append.2 ⟨List.forall_append.2 ⟨List.forall_append.2 ⟨bobRegisters_legal, ?_⟩, ?_⟩, enters_legal⟩
    · exact serves_legal trivial
    · exact later_legal rfl
  have hplay : (Pool.play (guarded (fun _ _ o w => o.passes ownAccount w) (execs noIdP))
      (bobRegisters ++ shares ++ later hour.toNat ++ enters 1 6) (.idle emptyWorld)).any fun p =>
        p.shared.history = [.opened (bobSession 1 .mailbox "c" false hour),
          .opened (bobSession 2 (.password 0) "l" true 0), .opened (bobSession 1 (.password 0) "r" true 0)] := by decide
  obtain ⟨past, p, hrun, hcheck⟩ := Pool.play_any (guarded_execs ownAccount_unclaimed) hlegal hplay
  have hhistory := of_decide_eq_true hcheck
  have hsplit : p.shared.history = [] ++ .opened (bobSession 1 .mailbox "c" false hour) ::
      [.opened (bobSession 2 (.password 0) "l" true 0), .opened (bobSession 1 (.password 0) "r" true 0)] := hhistory
  have hclears := proof_of_mailbox_clears ⟨rfl, rfl, rfl⟩ hrun hsplit rfl
  refine ⟨past, p, hrun, ?_, ?_, ?_⟩
  · rw [hhistory]
    exact List.mem_cons_of_mem _ List.mem_cons_self
  · rw [hhistory]
    exact List.mem_cons_self
  · exact hclears.1 (bobSession 2 (.password 0) "l" true 0) List.mem_cons_self rfl (unproved_of_all (by decide)) hour le_rfl

/-- Someone else registers with the address of `bob`, who enters the account by a code. -/
theorem session_left_open : ¬ ∀ (svc : Service) (w : World), w.Unentered →
    ∀ past (p : Pool Op World (Except Err Reply)),
      Run (Pool.Next (machine svc) (Program svc entryCalls)) (.idle w) past p →
      ∀ s later earlier, p.shared.history = later ++ .opened s :: earlier → s.proof = .mailbox →
        ∀ s', .opened s' ∈ earlier → s'.userID = s.userID → ¬ Proved (.opened s :: earlier) s.userID s'.openedBy →
          ∀ now, s.createdAt ≤ now → p.shared.verify s'.token now = none := by
  intro h
  have hplay : (Pool.play (execs noIdP) (bobRegisters ++ enters 2 6) (.idle emptyWorld)).any fun p =>
      p.shared.history = [.opened (bobSession 2 .mailbox "c" false 0), .opened (bobSession 1 (.password 0) "r" true 0)] ∧
        (p.shared.verify "r" 0).isSome := by decide
  obtain ⟨past, p, hrun, hcheck⟩ :=
    Pool.play_any execs_step (List.forall_append.2 ⟨bobRegisters_legal, enters_legal⟩) hplay
  obtain ⟨hhistory, haccepted⟩ := of_decide_eq_true hcheck
  have hrejected := h plainService emptyWorld ⟨rfl, rfl, rfl⟩ past p hrun (bobSession 2 .mailbox "c" false 0) [] _ hhistory rfl
    (bobSession 1 (.password 0) "r" true 0) List.mem_cons_self rfl (unproved_of_all (by decide)) 0 le_rfl
  have htoken : (bobSession 1 (.password 0) "r" true 0).token = "r" := rfl
  rw [htoken] at hrejected
  rw [hrejected] at haccepted
  cases haccepted

end Ploykit.Accounts

import Ploykit.Identity.Service

/-!
# The order of calls

A challenge is consumed by whoever has compared its secret, a comparison is with the row
that was read last and has tries left, and a code or link is issued where the last one is
older. A session is opened with a challenge at most once after it has been consumed.
-/

namespace Ploykit.Identity

open Lib Webx Lib.Proc

/-! ## What a call does -/

/-- The challenges are left alone, and nothing is recorded of them. -/
structure World.Same (w w' : World) : Prop where
  challenges : w'.challenges = w.challenges
  history : w'.history = w.history
  clock : w.clock ≤ w'.clock

theorem World.Same.refl (w : World) : w.Same w := ⟨rfl, rfl, le_refl _⟩

/-- What becomes of the challenges with a call. -/
def Effect : {β : Type} → Op β → World → β → World → Prop
  | _, .now, w, r, w' => r = w.clock ∧ w' = w
  | _, .hmacEqual c secretHash, w, r, w' => r = decide (c.secretHash = secretHash) ∧ w' = w.record (.guessed c.id r)
  | _, .repo (.latestPendingChallenge email kind), w, r, w' => (∀ o, r = .ok o → w.Latest email kind o) ∧ w' = w
  | _, .repo (.createChallenge email kind secretHash expiresAt), w, _, w' =>
    w' = w ∨ w' = w.insertChallenge email kind secretHash expiresAt
  | _, .repo (.incChallengeAttempts id), w, _, w' =>
    w' = w ∨ w' = w.updateChallenge id fun c => { c with attempts := c.attempts + 1 }
  | _, .repo (.consumeChallenge id), w, r, w' =>
    (∃ c ∈ w.challenges, (c.id = id ∧ c.consumedAt = none) ∧ r = .ok () ∧
      w' = (w.consume id).record (.accepted id c.email c.kind)) ∨
    (∃ e, r = .error e) ∧ (w' = w ∨ w' = w.consume id)
  | _, .repo (.createSession through _ _ _ _), w, _, w' =>
    w'.challenges = w.challenges ∧ w.clock ≤ w'.clock ∧
      (w'.history = w.history ∨ w'.history = through.toList.map Event.opened ++ w.history)
  | _, _, w, _, w' => w.Same w'

/-- The other statements leave the challenges alone. -/
theorem Query.exec_effect {β : Type} (q : Query β) (w : World) : Effect (.repo q) w (q.exec w).1 (q.exec w).2 := by
  cases q with
  | createChallenge email kind secretHash expiresAt => exact .inr rfl
  | latestPendingChallenge email kind =>
    obtain ⟨⟨o, hok, hlatest⟩, hsame⟩ := exec_answers (.latestPendingChallenge email kind) w
    exact ⟨fun o' heq => Except.ok.inj (hok.symm.trans heq) ▸ hlatest, hsame⟩
  | incChallengeAttempts id => exact .inr rfl
  | consumeChallenge id =>
    simp only [Effect, exec]
    split
    · rename_i c hfind
      have hpending := List.find?_some hfind
      exact .inl ⟨c, List.mem_of_find?_eq_some hfind, of_decide_eq_true hpending, rfl, rfl⟩
    · exact .inr ⟨⟨_, rfl⟩, .inl rfl⟩
  | createSession through token userID now expiresAt => exact ⟨rfl, le_refl _, .inr rfl⟩
  | getUser id =>
    simp only [Effect, exec]
    split
    · exact .refl w
    · exact .refl w
  | upsertUserByEmail newID email now =>
    simp only [Effect, exec]
    split
    · exact .refl w
    · exact ⟨rfl, rfl, le_refl _⟩
  | setPasswordHash userID passwordHash =>
    simp only [Effect, exec]
    split
    · exact ⟨rfl, rfl, le_refl _⟩
    · exact .refl w
  | _ => exact ⟨rfl, rfl, le_refl _⟩

theorem Query.failed_effect {β : Type} (q : Query β) (w : World) (e : Err) : Effect (.repo q) w (.error e) w := by
  cases q with
  | createChallenge => exact .inl rfl
  | latestPendingChallenge => exact ⟨fun o heq => (nomatch heq), rfl⟩
  | incChallengeAttempts => exact .inl rfl
  | consumeChallenge => exact .inr ⟨⟨e, rfl⟩, .inl rfl⟩
  | createSession => exact ⟨rfl, le_refl _, .inl rfl⟩
  | _ => exact .refl w

theorem Query.lost_effect {β : Type} (q : Query β) (w : World) (e : Err) : Effect (.repo q) w (.error e) (q.lost w) := by
  have hexec := q.exec_effect w
  cases q with
  | latestPendingChallenge => exact ⟨fun o heq => (nomatch heq), rfl⟩
  | consumeChallenge id =>
    refine .inr ⟨⟨e, rfl⟩, ?_⟩
    simp only [lost]
    split
    · exact .inr rfl
    · exact .inl rfl
  | _ => exact hexec

theorem Query.answers_effect {β : Type} {q : Query β} {w w' : World} {r : Except Err β} (h : q.Answers w r w') :
    Effect (.repo q) w r w' := by
  have hexec := q.exec_effect w
  cases q with
  | latestPendingChallenge email kind =>
    obtain ⟨⟨o, hok, hlatest⟩, hsame⟩ := h
    exact ⟨fun o' heq => Except.ok.inj (hok.symm.trans heq) ▸ hlatest, hsame⟩
  | _ =>
    have heq : (r, w') = _ := h
    rwa [← heq] at hexec

theorem Step.effect {β : Type} {o : Op β} {w w' : World} {r : β} (h : Step o w r w') : Effect o w r w' := by
  cases o with
  | now => exact h
  | hmacEqual c secretHash => exact h
  | issueCode =>
    obtain ⟨-, rfl⟩ := h
    exact .refl w'
  | repo q =>
    rcases h with hanswers | ⟨⟨e, rfl⟩, rfl | rfl⟩
    · exact q.answers_effect hanswers
    · exact q.failed_effect _ e
    · exact q.lost_effect w e
  | _ =>
    cases h
    exact .refl _

/-! ## The monitor -/

/-- What a session of the process has learned. -/
structure Seen where
  /-- The row that was read last. -/
  looked : Option (String × Kind × Option Challenge) := none
  /-- A clock was read since that is past its creation. -/
  cooled : Bool := false
  /-- Its secret has been presented. -/
  matched : Option Challenge := none
  /-- The challenge that was consumed, until a session is opened. -/
  consumed : Option Nat := none

namespace Seen

variable (s : Seen)

def forget : Seen := { consumed := s.consumed }

def look (email : String) (kind : Kind) (o : Option Challenge) : Seen :=
  { looked := some (email, kind, o), consumed := s.consumed }

def past (now : Time) : Bool :=
  match s.looked with
  | some (_, _, some c) => c.createdAt < now
  | _ => false

def next : {β : Type} → Op β → β → Seen
  | _, .now, now => { s with cooled := s.cooled || s.past now }
  | _, .hmacEqual c _, right => if right then { s with matched := some c } else s
  | _, .repo (.latestPendingChallenge email kind), .ok o => s.look email kind o
  | _, .repo (.createChallenge _ _ _ _), _ => s.forget
  | _, .repo (.incChallengeAttempts _), _ => s.forget
  | _, .repo (.consumeChallenge id), .ok _ => { consumed := some id }
  | _, .repo (.consumeChallenge _), .error _ => s.forget
  | _, .repo (.createSession _ _ _ _ _), _ => { s with consumed := none }
  | _, _, _ => s

def Allows : {β : Type} → Op β → Prop
  | _, .hmacEqual c _ => c.attempts < codeMaxTries ∧ ∃ email kind, s.looked = some (email, kind, some c)
  | _, .repo (.consumeChallenge id) => ∃ c, s.matched = some c ∧ c.id = id
  | _, .repo (.createChallenge email kind _ _) => ∃ o, s.looked = some (email, kind, o) ∧ (o = none ∨ s.cooled)
  | _, .repo (.createSession (some id) _ _ _ _) => s.consumed = some id
  | _, _ => True

end Seen

def monitor : Monitor Op Seen where
  allows s := s.Allows
  next s := s.next
  rests _ := True
  init := {}
  abort _ := {}
  init_rests := trivial
  abort_rests _ := trivial

/-! ## Procedures in order -/

section rules

variable {α β : Type} {s : Seen} {Q : Seen → α → Prop}

/-- The procedure calls in order, and where it returns `Q` holds. -/
abbrev Obeys (s : Seen) (m : Proc α) (Q : Seen → α → Prop) : Prop := Proc.Obeys monitor (fun _ _ => True) s m Q

theorem obeys_refuse {e : Webx.Error} : Obeys s (refuse e) Q := trivial

theorem obeys_try {o : Op (Except Err α)} (ho : s.Allows o) (h : ∀ a, Q (s.next o (.ok a)) a) : Obeys s (attempt o) Q :=
  obeys_attempt ho h fun _ => trivial

theorem obeys_repo {q : Query α} (hq : s.Allows (.repo q)) (h : ∀ a, Q (s.next (.repo q) (.ok a)) a) :
    Obeys s (repo q) Q := obeys_try hq h

theorem obeys_ignore {q : Query β} {Q : Seen → Unit → Prop} (hq : s.Allows (.repo q))
    (h : ∀ r, Q (s.next (.repo q) r) ()) : Obeys s (ignore q) Q :=
  obeys_bind (obeys_ask hq fun _ => obeys_pure (h _))

end rules

/-! ## The services -/

section services

variable {s : Seen} {svc : Service} {email : String} {kind : Kind}

theorem obeys_tooManyAttempts {ipHash : String} : Obeys s (svc.tooManyAttempts ipHash email) fun _ _ => True :=
  obeys_bind (obeys_ask trivial fun _ => obeys_bind (obeys_repo trivial fun _ => obeys_pure trivial))

theorem obeys_signupBlocked : Obeys s (svc.signupBlocked email) fun s' _ => s'.consumed = s.consumed := by
  have hsettings : Obeys s svc.signupSettings fun s' _ => s'.consumed = s.consumed :=
    obeys_ite (fun _ => obeys_ask trivial fun _ => rfl) fun _ => obeys_pure rfl
  exact obeys_bind (hsettings.mono fun s' settings h => obeys_pure h)

theorem obeys_mayEnter : Obeys s (svc.mayEnter email) fun s' _ => s'.consumed = s.consumed := by
  refine obeys_bind (obeys_signupBlocked.mono fun s' blocked h => obeys_ite (fun _ => obeys_pure h) fun _ => ?_)
  exact obeys_bind (obeys_repo trivial fun _ => obeys_pure h)

/-- Who need not wait has seen a clock past the last issue. -/
theorem obeys_cooling {latest : Option Challenge} {cooldown : Duration} (hcooldown : 0 < cooldown)
    (hlooked : s.looked = some (email, kind, latest)) : Obeys s (Service.cooling latest cooldown) fun s' wait =>
      s'.looked = some (email, kind, latest) ∧ (¬ wait → latest = none ∨ s'.cooled) := by
  cases latest with
  | none => exact obeys_pure ⟨hlooked, fun _ => .inl rfl⟩
  | some c =>
    refine obeys_bind (obeys_ask trivial fun now => obeys_pure ⟨hlooked, fun hwait => .inr ?_⟩)
    have hpast : s.past now = true := by
      have hlate : cooldown ≤ now - c.createdAt := not_lt.1 (of_decide_eq_false (Bool.eq_false_of_not_eq_true hwait))
      simp only [Seen.past, hlooked, decide_eq_true_eq]
      exact Int.lt_of_sub_pos (hcooldown.trans_le hlate)
    exact (congrArg (s.cooled || ·) hpast).trans (Bool.or_true _)

theorem obeys_issue {cooldown ttl : Duration} {tooSoon : String} {draw : Op (Except Err String)} {mail : String → Mail}
    (hcooldown : 0 < cooldown) (hdraw : ∀ s : Seen, s.Allows draw) (hnext : ∀ (s : Seen) r, s.next draw r = s) :
    Obeys s (svc.issue email kind cooldown tooSoon draw ttl mail) fun _ _ => True := by
  refine obeys_bind (obeys_repo trivial fun latest => ?_)
  refine obeys_bind ((obeys_cooling hcooldown rfl).mono ?_)
  rintro s' wait ⟨hlooked, hcooled⟩
  refine obeys_ite (fun _ => obeys_refuse) fun hwait => obeys_bind (obeys_try (hdraw s') fun secret => ?_)
  rw [hnext]
  refine obeys_bind (obeys_ask trivial fun now => obeys_bind (obeys_repo ?_ fun _ => ?_))
  · exact ⟨latest, hlooked, (hcooled hwait).imp_right fun hc => Bool.or_eq_true_iff.2 (.inl hc)⟩
  · exact obeys_try trivial fun _ => trivial

theorem obeys_issueLink {ttl : Duration} {mail : String → Mail} :
    Obeys s (svc.issueLink email kind ttl mail) fun _ _ => True :=
  obeys_issue (by decide) (fun _ => trivial) fun _ _ => rfl

/-! ### Login codes -/

theorem obeys_sendCode {ipHash rawEmail : String} : Obeys s (svc.sendCode ipHash rawEmail) fun _ _ => True := by
  refine obeys_ite (fun _ => obeys_refuse) fun _ => ?_
  refine obeys_bind (obeys_tooManyAttempts.mono fun s' limited _ => ?_)
  refine obeys_ite (fun _ => obeys_refuse) fun _ => ?_
  exact obeys_issue (by decide) (fun _ => trivial) fun _ _ => rfl

theorem obeys_acceptCode {ipHash code : String} :
    Obeys s (svc.acceptCode ipHash email code) fun s' c => s'.consumed = some c.id := by
  refine obeys_ite (fun _ => obeys_refuse) fun _ => ?_
  refine obeys_bind (obeys_repo trivial fun ch => obeys_bind (obeys_ask trivial fun now => ?_))
  cases ch with
  | none => exact obeys_refuse
  | some c =>
    refine obeys_ite (fun _ => obeys_refuse) fun _ => obeys_ite (fun _ => obeys_refuse) fun htries => ?_
    refine obeys_bind (obeys_ask ⟨not_le.1 htries, email, .loginCode, rfl⟩ fun right => ?_)
    refine obeys_ite (fun _ => ?_) fun hright => ?_
    · exact obeys_bind (obeys_ignore trivial fun _ => obeys_bind (obeys_ignore trivial fun _ => obeys_refuse))
    · -- a right guess is kept in mind until the row is consumed
      have hmatched : right = true := by simpa using hright
      cases hmatched
      exact obeys_bind (obeys_repo ⟨c, rfl, rfl⟩ fun _ => obeys_pure rfl)

theorem obeys_login {ipHash newID newToken : String} {through : Option Nat}
    (hthrough : ∀ id, through = some id → s.consumed = some id) :
    Obeys s (svc.login ipHash newID newToken email through) fun _ _ => True := by
  refine obeys_bind (obeys_mayEnter.mono fun s' enters h => obeys_ite (fun _ => obeys_refuse) fun _ => ?_)
  refine obeys_bind (obeys_repo trivial fun existing => obeys_bind (obeys_ask trivial fun now => ?_))
  refine obeys_bind (obeys_repo trivial fun user => obeys_ite (fun _ => obeys_refuse) fun _ => ?_)
  refine obeys_bind (obeys_ask trivial fun now => obeys_bind (obeys_repo ?_ fun token => ?_))
  · cases through with
    | none => trivial
    | some id => exact h.trans (hthrough id rfl)
  · exact obeys_bind (obeys_ask trivial fun _ => obeys_bind (obeys_ignore trivial fun _ => obeys_pure trivial))

theorem obeys_verifyCode {ipHash newID newToken rawEmail code : String} :
    Obeys s (svc.verifyCode ipHash newID newToken rawEmail code) fun _ _ => True := by
  refine obeys_ite (fun _ => obeys_refuse) fun _ => obeys_ite (fun _ => obeys_refuse) fun _ => ?_
  refine obeys_ite (fun _ => obeys_login fun _ heq => nomatch heq) fun _ => ?_
  refine obeys_bind (obeys_acceptCode.mono fun s' c hc => obeys_login fun id heq => ?_)
  cases heq
  exact hc

/-! ### Links -/

theorem obeys_verifyLinkChallenge {token : String} :
    Obeys s (svc.verifyLinkChallenge email kind token) fun s' c => s'.matched = some c := by
  refine obeys_bind (obeys_repo trivial fun ch => ?_)
  cases ch with
  | none => exact obeys_refuse
  | some c =>
    refine obeys_ite (fun _ => obeys_refuse) fun htries => obeys_bind (obeys_ask trivial fun now => ?_)
    refine obeys_ite (fun _ => obeys_refuse) fun _ => ?_
    refine obeys_bind (obeys_ask ⟨not_le.1 htries, email, kind, rfl⟩ fun right => ?_)
    refine obeys_ite (fun _ => obeys_bind (obeys_ignore trivial fun _ => obeys_refuse)) fun hright => obeys_pure ?_
    have hmatched : right = true := by simpa using hright
    cases hmatched
    rfl

theorem obeys_requestPasswordReset {rawEmail : String} :
    Obeys s (svc.requestPasswordReset rawEmail) fun _ _ => True := by
  refine obeys_ite (fun _ => obeys_refuse) fun _ => obeys_bind (obeys_repo trivial fun user => ?_)
  cases user with
  | none => exact obeys_pure trivial
  | some u => exact obeys_issueLink

theorem obeys_resetPassword {rawEmail token newPassword : String} :
    Obeys s (svc.resetPassword rawEmail token newPassword) fun _ _ => True := by
  refine obeys_ite (fun _ => obeys_refuse) fun _ => obeys_bind (obeys_repo trivial fun user => ?_)
  cases user with
  | none => exact obeys_refuse
  | some u =>
    refine obeys_bind (obeys_verifyLinkChallenge.mono fun s' c hc => obeys_ite (fun _ => obeys_refuse) fun _ => ?_)
    refine obeys_bind (obeys_repo ⟨c, hc, rfl⟩ fun _ => obeys_bind (obeys_try trivial fun hash => ?_))
    exact obeys_bind (obeys_repo trivial fun _ => obeys_repo trivial fun _ => trivial)

theorem obeys_getUserOr {id : String} {notFound : Webx.Error} :
    Obeys s (Service.getUserOr id notFound) fun _ _ => True := by
  refine obeys_bind (obeys_ask trivial fun found => ?_)
  cases found with
  | ok u => exact obeys_pure trivial
  | error e => exact obeys_ite (fun _ => obeys_refuse) fun _ => obeys_throw trivial

theorem obeys_sendVerification {p : Option Principal} : Obeys s (svc.sendVerification p) fun _ _ => True := by
  cases p with
  | none => exact obeys_refuse
  | some p => exact obeys_bind (obeys_repo trivial fun u => obeys_ite (fun _ => obeys_refuse) fun _ => obeys_issueLink)

theorem obeys_resendVerificationFor : Obeys s (svc.resendVerificationFor email) fun _ _ => True := by
  refine obeys_bind (obeys_repo trivial fun user => ?_)
  cases user with
  | none => exact obeys_refuse
  | some u => exact obeys_ite (fun _ => obeys_refuse) fun _ => obeys_issueLink

theorem obeys_verifyEmail {rawEmail token : String} : Obeys s (svc.verifyEmail rawEmail token) fun _ _ => True := by
  refine obeys_ite (fun _ => obeys_refuse) fun _ => obeys_bind (obeys_repo trivial fun user => ?_)
  cases user with
  | none => exact obeys_refuse
  | some u =>
    refine obeys_bind (obeys_verifyLinkChallenge.mono fun s' c hc => obeys_bind (obeys_repo ⟨c, hc, rfl⟩ fun _ => ?_))
    exact obeys_bind (obeys_ask trivial fun _ => obeys_repo trivial fun _ => trivial)

theorem obeys_call (c : Call) : Obeys s (c.exec svc) fun _ _ => True := by
  cases c with
  | sendCode => exact obeys_sendCode
  | verifyCode => exact obeys_bind (obeys_verifyCode.mono fun _ _ _ => obeys_pure trivial)
  | requestPasswordReset => exact obeys_requestPasswordReset
  | resetPassword => exact obeys_resetPassword
  | resetPasswordFor => exact obeys_bind (obeys_getUserOr.mono fun _ _ _ => obeys_requestPasswordReset)
  | sendVerification => exact obeys_sendVerification
  | resendVerificationFor => exact obeys_resendVerificationFor
  | verifyEmail => exact obeys_verifyEmail

end services

/-- Every program of the services calls in order. -/
theorem program_accepts {svc : Service} {m : Script Op (Except Err Unit)} (h : Program svc m) : monitor.Accepts m := by
  obtain ⟨c, rfl⟩ := h
  exact fun s _ => Script.Follows.mono (obeys_call c) fun _ _ _ => trivial

end Ploykit.Identity

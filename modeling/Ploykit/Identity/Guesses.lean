import Ploykit.Identity.Calls
import Ploykit.Lib.Tickets

/-!
# Guesses

The tries of a challenge are read, compared with their bound and counted in separate calls.
The bound is kept where every wrong guess so far had been counted when the tries were read.
A challenge opens one session in any case.
-/

namespace Ploykit.Identity

open Lib

/-- A guess is compared after fewer wrong ones than there are tries. -/
def InTime (history : List Event) : Prop :=
  ∀ id right before, .guessed id right :: before <:+ history → before.count (.guessed id false) < codeMaxTries

/-- No challenge has more wrong guesses than tries, or is compared with one after them, and each opens
one session. -/
structure Limited (history : List Event) : Prop where
  wrong : ∀ id, history.count (.guessed id false) ≤ codeMaxTries
  inTime : InTime history
  opened : ∀ id, history.count (.opened id) ≤ 1

/-- The tries of the row that a guess is compared with count every wrong guess so far. -/
def CountsAll (_ : Nat) : {β : Type} → Op β → World → Prop
  | _, .hmacEqual c _, w => w.history.count (.guessed c.id false) ≤ c.attempts
  | _, _, _ => True

/-- No challenge has been issued. -/
structure World.Fresh (w : World) : Prop where
  challenges : w.challenges = []
  history : w.history = []

/-! ## Guesses in time -/

section inTime

variable {history : List Event} {e : Event}

theorem inTime_nil : InTime [] := fun _ _ _ h => nomatch List.suffix_nil.1 h

theorem InTime.cons (h : InTime history)
    (he : ∀ id right, e = .guessed id right → history.count (.guessed id false) < codeMaxTries) : InTime (e :: history) := by
  intro id right before hbefore
  rcases List.suffix_cons_iff.1 hbefore with heq | hrest
  · cases heq
    exact he id right rfl
  · exact h id right before hrest

theorem InTime.tail (h : InTime (e :: history)) : InTime history :=
  fun id right before hbefore => h id right before (hbefore.trans (List.suffix_cons ..))

theorem InTime.wrong (h : InTime history) (id : Nat) : history.count (.guessed id false) ≤ codeMaxTries := by
  induction history with
  | nil => exact Nat.zero_le _
  | cons e history ih =>
    cases hlast : decide (e = .guessed id false) with
    | true =>
      cases of_decide_eq_true hlast
      rw [List.count_cons_self]
      exact h id false history (List.suffix_refl _)
    | false =>
      rw [List.count_cons_of_ne (of_decide_eq_false hlast)]
      exact ih h.tail

theorem count_opened_cons (he : ∀ id, e ≠ .opened id) (id : Nat) :
    (e :: history).count (.opened id) = history.count (.opened id) := List.count_cons_of_ne (he id)

end inTime

/-! ## Challenges that are spent -/

/-- The challenge has been issued, and is not pending. -/
def World.Spent (w : World) (id : Nat) : Prop :=
  id < w.challenges.length ∧ ∀ c ∈ w.challenges, c.id = id → c.consumedAt ≠ none

/-- Challenges have the numbers that have been given. -/
def World.Numbered (w : World) : Prop := ∀ c ∈ w.challenges, c.id < w.challenges.length

section spent

variable {w w' : World} {id id' : Nat} {f : Challenge → Challenge}

theorem World.Same.spent (h : w.Same w') (hid : w.Spent id) : w'.Spent id := by
  rwa [Spent, h.challenges]

theorem World.Same.numbered (h : w.Same w') (hw : w.Numbered) : w'.Numbered := by
  rwa [Numbered, h.challenges]

theorem spent_insert {email : String} {kind : Kind} {secretHash : String} {expiresAt : Time} (hid : w.Spent id) :
    (w.insertChallenge email kind secretHash expiresAt).Spent id := by
  refine ⟨hid.1.trans (Nat.lt_succ_self _), fun c hc heq => ?_⟩
  rcases List.mem_cons.1 hc with rfl | hc
  · exact absurd heq (Nat.ne_of_gt hid.1)
  · exact hid.2 c hc heq

theorem numbered_insert {email : String} {kind : Kind} {secretHash : String} {expiresAt : Time} (hw : w.Numbered) :
    (w.insertChallenge email kind secretHash expiresAt).Numbered := by
  intro c hc
  rcases List.mem_cons.1 hc with rfl | hc
  · exact Nat.lt_succ_self _
  · exact (hw c hc).trans (Nat.lt_succ_self _)

/-- An update that does not make a row pending again. -/
theorem spent_update (hf : ∀ c, (f c).id = c.id ∧ (c.consumedAt ≠ none → (f c).consumedAt ≠ none)) (hid : w.Spent id) :
    (w.updateChallenge id' f).Spent id := by
  refine ⟨by simpa using hid.1, fun c hc heq => ?_⟩
  rcases World.mem_updateChallenge hc with ⟨hc, -⟩ | ⟨c', hc', -, rfl⟩
  · exact hid.2 c hc heq
  · exact (hf c').2 (hid.2 c' hc' ((hf c').1.symm.trans heq))

theorem numbered_update (hf : ∀ c, (f c).id = c.id) (hw : w.Numbered) : (w.updateChallenge id' f).Numbered := by
  intro c hc
  rw [World.updateChallenge_length]
  rcases World.mem_updateChallenge hc with ⟨hc, -⟩ | ⟨c', hc', -, rfl⟩
  · exact hw c hc
  · exact (hf c').symm ▸ hw c' hc'

theorem World.Spent.consume (hid : w.Spent id) : (w.consume id').Spent id :=
  spent_update (fun _ => ⟨rfl, fun _ => Option.some_ne_none _⟩) hid

theorem spent_consume (hid : id < w.challenges.length) : (w.consume id).Spent id := by
  refine ⟨by simpa [World.consume] using hid, fun c hc heq => ?_⟩
  rcases World.mem_updateChallenge hc with ⟨-, hne⟩ | ⟨c', -, -, rfl⟩
  · exact absurd heq hne
  · exact Option.some_ne_none _

end spent

/-! ## Calls -/

/-- Guesses have been in time, and a challenge that is consumed opens one session, which is that of its consumer. -/
structure Tried (w : World) (seen : Nat → Seen) : Prop where
  numbered : w.Numbered
  inTime : InTime w.history
  opened : ∀ id, w.history.count (.opened id) ≤ 1
  tickets : Tickets w.Spent (fun id => .opened id ∈ w.history) (Seen.consumed ∘ seen)

section tried

variable {w w' : World} {seen : Nat → Seen} {i : Nat} {s : Seen}

theorem World.Fresh.tried (h : w.Fresh) : Tried w fun _ => {} where
  numbered c hc := by
    rw [h.challenges] at hc
    cases hc
  inTime := h.history.symm ▸ inTime_nil
  opened id := by
    rw [h.history]
    exact Nat.zero_le 1
  tickets := by
    refine (Tickets.unused w.Spent).mono (fun _ hid => hid) (fun id hid => ?_) fun _ _ heq => heq
    rw [h.history] at hid
    cases hid

/-- Where a session moves and nothing is taken or opened. -/
theorem Tried.move (hw : Tried w seen) (hnumbered : w.Numbered → w'.Numbered) (hinTime : InTime w.history → InTime w'.history)
    (hspent : ∀ id, w.Spent id → w'.Spent id)
    (hhistory : ∀ id, w'.history.count (.opened id) = w.history.count (.opened id))
    (hs : ∀ id, s.consumed = some id → (seen i).consumed = some id) : Tried w' (Function.update seen i s) := by
  refine ⟨hnumbered hw.numbered, hinTime hw.inTime, fun id => (hhistory id).le.trans (hw.opened id), ?_⟩
  refine hw.tickets.mono hspent (fun id hid => ?_) fun j id hj => ?_
  · exact List.count_pos_iff.1 ((hhistory id).symm ▸ List.count_pos_iff.2 hid)
  · rw [Function.comp_update] at hj
    rcases Tickets.update_cases hj with ⟨rfl, heq⟩ | ⟨-, hheld⟩
    · exact hs id heq
    · exact hheld

theorem Tried.same (hw : Tried w seen) (h : w.Same w') (hs : ∀ id, s.consumed = some id → (seen i).consumed = some id) :
    Tried w' (Function.update seen i s) :=
  hw.move h.numbered (fun hin => h.history.symm ▸ hin) (fun _ => h.spent) (fun _ => by rw [h.history]) hs

/-- Something is recorded that is neither a guess nor a session. -/
theorem Tried.note {e : Event} (hw : Tried w seen) (hhistory : w'.history = e :: w.history)
    (hguess : ∀ id right, e ≠ .guessed id right) (hopen : ∀ id, e ≠ .opened id) (hnumbered : w.Numbered → w'.Numbered)
    (hspent : ∀ id, w.Spent id → w'.Spent id) (hs : ∀ id, s.consumed = some id → (seen i).consumed = some id) :
    Tried w' (Function.update seen i s) := by
  refine hw.move hnumbered (fun hin => ?_) hspent (fun id => ?_) hs
  · rw [hhistory]
    exact hin.cons fun id right heq => absurd heq (hguess id right)
  · rw [hhistory, count_opened_cons hopen]

/-- The challenge is consumed and accepted, by a session that has it from now on. -/
theorem Tried.accept {c : Challenge} (hw : Tried w seen) (hc : c ∈ w.challenges) (hpending : c.consumedAt = none)
    (hs : s.consumed = some c.id) :
    Tried ((w.consume c.id).record (.accepted c.id c.email c.kind)) (Function.update seen i s) where
  numbered := numbered_update (fun _ => rfl) hw.numbered
  inTime := hw.inTime.cons fun _ _ heq => nomatch heq
  opened id := by
    have hsame := @count_opened_cons w.history (.accepted c.id c.email c.kind) (fun _ heq => nomatch heq) id
    exact hsame.le.trans (hw.opened id)
  tickets := by
    rw [Function.comp_update, hs]
    have htaken := hw.tickets.take (i := i) (fun hspent => hspent.2 c hc rfl hpending) (fun _ hid => hid.consume)
      (spent_consume (hw.numbered c hc))
    refine htaken.mono (fun _ hid => hid) (fun id hid => ?_) fun _ _ heq => heq
    exact (List.mem_cons.1 hid).resolve_left fun heq => nomatch heq

/-- The session that has the challenge opens a session of the user with it. -/
theorem Tried.open {id : Nat} (hw : Tried w seen) (hchallenges : w'.challenges = w.challenges)
    (hhistory : w'.history = .opened id :: w.history) (hheld : (seen i).consumed = some id) (hs : s.consumed = none) :
    Tried w' (Function.update seen i s) where
  numbered := by
    rw [World.Numbered, hchallenges]
    exact hw.numbered
  inTime := by
    rw [hhistory]
    exact hw.inTime.cons fun _ _ heq => nomatch heq
  opened id' := by
    rw [hhistory]
    cases hid : decide (id' = id) with
    | true =>
      cases of_decide_eq_true hid
      have hfresh : .opened id ∉ w.history := hw.tickets.fresh hheld
      rw [List.count_cons_self, List.count_eq_zero.2 hfresh]
    | false =>
      rw [List.count_cons_of_ne fun heq => of_decide_eq_false hid (Event.opened.inj heq).symm]
      exact hw.opened id'
  tickets := by
    rw [Function.comp_update, hs, hhistory]
    refine (hw.tickets.use hheld fun id' hid => ?_).mono (fun id' hid => ?_) (fun _ hid => hid) fun _ _ heq => heq
    · exact (List.mem_cons.1 hid).imp_left Event.opened.inj
    · rwa [World.Spent, hchallenges]

/-- Every call keeps the tries and the sessions within their bounds, where a guess is compared with
tries that are up to date. -/
theorem Step.tried {β : Type} {o : Op β} {r : β} (h : Step o w r w') (hallows : (seen i).Allows o)
    (hcounts : CountsAll i o w) (hw : Tried w seen) : Tried w' (Function.update seen i ((seen i).next o r)) := by
  have heffect := h.effect
  cases o with
  | now =>
    obtain ⟨-, rfl⟩ := heffect
    exact hw.same (.refl _) fun _ heq => heq
  | hmacEqual c secretHash =>
    obtain ⟨-, rfl⟩ := heffect
    have hs : ((seen i).next (.hmacEqual c secretHash) r).consumed = (seen i).consumed := by
      cases r with
      | _ => rfl
    refine hw.move (fun hn => hn) (fun hin => hin.cons fun id right heq => ?_) (fun _ hid => hid)
      (count_opened_cons fun id heq => nomatch heq) fun id heq => hs ▸ heq
    cases heq
    exact hcounts.trans_lt hallows.1
  | repo q =>
    cases q with
    | latestPendingChallenge email kind =>
      obtain ⟨-, rfl⟩ := heffect
      cases r with
      | _ => exact hw.same (.refl _) fun _ heq => heq
    | createChallenge email kind secretHash expiresAt =>
      rcases heffect with rfl | rfl
      · exact hw.same (.refl _) fun _ heq => heq
      · exact hw.note rfl (fun _ _ heq => nomatch heq) (fun _ heq => nomatch heq) numbered_insert
          (fun _ => spent_insert) fun _ heq => heq
    | incChallengeAttempts id =>
      rcases heffect with rfl | rfl
      · exact hw.same (.refl _) fun _ heq => heq
      · exact hw.move (numbered_update fun _ => rfl) (fun hin => hin) (fun _ => spent_update fun _ => ⟨rfl, fun hc => hc⟩)
          (fun _ => rfl) fun _ heq => heq
    | consumeChallenge id =>
      rcases heffect with ⟨c, hc, ⟨rfl, hpending⟩, rfl, rfl⟩ | ⟨⟨e, rfl⟩, rfl | rfl⟩
      · exact hw.accept hc hpending rfl
      · exact hw.same (.refl _) fun _ heq => heq
      · exact hw.move (numbered_update fun _ => rfl) (fun hin => hin) (fun _ hid => hid.consume) (fun _ => rfl) fun _ heq => heq
    | createSession through token userID now expiresAt =>
      obtain ⟨hchallenges, hclock, hhistory⟩ := heffect
      cases through with
      | none =>
        have hsame : w'.history = w.history := hhistory.elim id id
        exact hw.same ⟨hchallenges, hsame, hclock⟩ fun _ heq => nomatch heq
      | some id =>
        rcases hhistory with hhistory | hhistory
        · exact hw.same ⟨hchallenges, hhistory, hclock⟩ fun _ heq => nomatch heq
        · exact hw.open hchallenges hhistory hallows rfl
    | _ => exact hw.same heffect fun _ heq => heq
  | _ => exact hw.same heffect fun _ heq => heq

end tried

/-! ## Runs -/

/-- In every run in which a guess is compared with tries that are up to date, a challenge has no more
wrong guesses than tries, is compared with no guess after them, and opens one session. -/
theorem tries_bounded (svc : Service) {w : World} (hfresh : w.Fresh) {past : List (Pool Op World (Except Err Unit))}
    {p : Pool Op World (Except Err Unit)}
    (h : Run (Pool.Next (machine.given CountsAll) (Program svc)) (.idle w) past p) : Limited p.shared.history := by
  obtain ⟨past', q, hrun, rfl⟩ := Pool.run_watched (W := monitor) h
  have htried : Tried q.shared.1 q.shared.2 := by
    refine Pool.watched_invariant (I := fun x : World × (Nat → Seen) => Tried x.1 x.2) hrun (fun m hm => program_accepts hm)
      hfresh.tried ?_ ?_ ?_
    · intro i β o r x x' hx hallows _ hstep hseen
      rw [hseen]
      exact hstep.2.tried hallows hstep.1 hx
    · intro i x hx
      exact hx.same (.refl _) fun _ heq => nomatch heq
    · intro x w' hx henv
      have hmoved := hx.same (i := 0) (s := x.2 0) ⟨henv.2.1, henv.2.2, henv.1⟩ fun _ heq => heq
      rwa [Function.update_eq_self] at hmoved
  exact ⟨htried.inTime.wrong, htried.inTime, htried.opened⟩

/-! ### Guesses in parallel -/

theorem emptyWorld_fresh : emptyWorld.Fresh := ⟨rfl, rfl⟩

def countsAll (_ : Nat) : {β : Type} → Op β → World → Bool
  | _, .hmacEqual c _, w => w.history.count (.guessed c.id false) ≤ c.attempts
  | _, _, _ => true

theorem countsAll_holds (i : Nat) {β : Type} (o : Op β) (w : World) (h : countsAll i o w) : CountsAll i o w := by
  cases o with
  | hmacEqual c secretHash =>
    have hcount : w.history.count (.guessed c.id false) ≤ c.attempts := of_decide_eq_true h
    exact hcount
  | _ => trivial

def sent : Turns := serves 0 (.sendCode "ip" "ann@example.com") 7

def guesses (i : Nat) (code : String) (n : Nat) : Turns := serves i (.verifyCode "ip" "ann" "token" "ann@example.com" code) n

/-- A wrong guess is counted before the right one is made. -/
def guessedTwice : Turns := sent ++ guesses 1 "000000" 5 ++ guesses 2 "111111" 11

theorem guessedTwice_legal {M : Machine Op World} : guessedTwice.Forall (Turn.Legal M (Program plainService)) :=
  List.forall_append.2 ⟨List.forall_append.2 ⟨serves_legal .., serves_legal ..⟩, serves_legal ..⟩

theorem tries_bounded_twice : ∃ past p,
    Run (Pool.Next (machine.given CountsAll) (Program plainService)) (.idle emptyWorld) past p ∧
    (p.shared.history.count (.guessed 0 false) = 1 ∧ p.shared.history.count (.opened 0) = 1) ∧ Limited p.shared.history := by
  have hplay : (Pool.play (guarded countsAll execs) guessedTwice (.idle emptyWorld)).any fun p =>
      p.shared.history.count (.guessed 0 false) = 1 ∧ p.shared.history.count (.opened 0) = 1 := by decide
  obtain ⟨past, p, hrun, hcheck⟩ := Pool.play_any (guarded_step countsAll_holds execs_step) guessedTwice_legal hplay
  exact ⟨past, p, hrun, of_decide_eq_true hcheck, tries_bounded plainService emptyWorld_fresh hrun⟩

/-- Six sessions read the tries before any of them compares its guess. -/
def guessedAtOnce : Turns :=
  sent ++ [1, 2, 3, 4, 5, 6].flatMap (guesses · "000000" 2) ++ [1, 2, 3, 4, 5, 6].map (.calls · 1)

theorem guessedAtOnce_legal {M : Machine Op World} : guessedAtOnce.Forall (Turn.Legal M (Program plainService)) := by
  refine List.forall_append.2 ⟨List.forall_append.2 ⟨serves_legal .., ?_⟩, ?_⟩
  · refine List.forall_iff_forall_mem.2 fun t ht => ?_
    obtain ⟨i, -, hi⟩ := List.mem_flatMap.1 ht
    exact List.forall_iff_forall_mem.1 (serves_legal i _ 2) t hi
  · exact ⟨trivial, trivial, trivial, trivial, trivial, trivial⟩

theorem guesses_unbounded : ¬ ∀ (svc : Service) (w : World), w.Fresh → ∀ past (p : Pool Op World (Except Err Unit)),
    Run (Pool.Next machine (Program svc)) (.idle w) past p → Limited p.shared.history := by
  intro h
  have hplay : (Pool.play execs guessedAtOnce (.idle emptyWorld)).any fun p =>
      p.shared.history.count (.guessed 0 false) = 6 := by decide
  obtain ⟨past, p, hrun, hcheck⟩ := Pool.play_any execs_step guessedAtOnce_legal hplay
  have hwrong := (h plainService emptyWorld emptyWorld_fresh past p hrun).wrong 0
  rw [of_decide_eq_true hcheck] at hwrong
  exact absurd hwrong (by decide)

end Ploykit.Identity

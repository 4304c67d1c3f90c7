import Ploykit.Identity.Guesses

/-!
# The newest code

The row that is read is the last created of those that are pending. Where requests do not
overlap it is the last that was issued, unless that one has been consumed: then an older
one is read again. No older one is accepted where its secret is not presented.
-/

namespace Ploykit.Identity

open Lib

/-- A code or link of this kind has been issued for the address, or accepted. -/
def Event.about (email : String) (kind : Kind) : Event → Bool
  | .issued _ e k => e = email ∧ k = kind
  | .accepted _ e k => e = email ∧ k = kind
  | _ => false

/-- What is accepted is the last issued of its kind for the address, and none has been accepted since. -/
def OnlyNewest (history : List Event) : Prop :=
  ∀ id email kind before, .accepted id email kind :: before <:+ history →
    before.find? (Event.about email kind) = some (.issued id email kind)

/-- The calls of one session only, so that each request is served before the next one. -/
def sequential : Machine Op World := machine.given fun i _ _ _ => i = 0

/-- The secret that is presented is not that of a challenge after which another of its kind was issued
that has been consumed. -/
def NotOvertaken (_ : Nat) : {β : Type} → Op β → World → Prop
  | _, .hmacEqual c secretHash, w => c.secretHash = secretHash →
    ∀ c' ∈ w.challenges, c'.Of c.email c.kind → c.id < c'.id → c'.consumedAt = none
  | _, _, _ => True

/-! ## Events -/

section onlyNewest

variable {history : List Event} {e : Event}

theorem onlyNewest_nil : OnlyNewest [] := fun _ _ _ _ h => nomatch List.suffix_nil.1 h

theorem OnlyNewest.cons (h : OnlyNewest history)
    (he : ∀ id email kind, e = .accepted id email kind → history.find? (Event.about email kind) = some (.issued id email kind)) :
    OnlyNewest (e :: history) := by
  intro id email kind before hbefore
  rcases List.suffix_cons_iff.1 hbefore with heq | hrest
  · cases heq
    exact he id email kind rfl
  · exact h id email kind before hrest

end onlyNewest

/-! ## Rows in order -/

/-- The row was issued after the other, and created later if both are pending and of a kind. -/
def Challenge.Follows (c c' : Challenge) : Prop :=
  c'.id < c.id ∧ (c'.Of c.email c.kind → c.consumedAt = none → c'.consumedAt = none → c'.createdAt < c.createdAt)

/-- The rows are in order, and the last one of a kind, while it is pending, is what was issued or accepted last. -/
structure Orderly (w : World) : Prop where
  numbered : w.Numbered
  follows : w.challenges.Pairwise Challenge.Follows
  lasting : ∀ email kind c, w.challenges.find? (fun c => c.Of email kind) = some c → c.consumedAt = none →
    w.history.find? (Event.about email kind) = some (.issued c.id email kind)
  only : OnlyNewest w.history

/-- What is found first precedes what else could be found. -/
theorem find_first {α : Type} {R : α → α → Prop} {p : α → Bool} {l : List α} {a b : α} (hpairs : l.Pairwise R)
    (hfind : l.find? p = some a) (hb : b ∈ l) (hpb : p b) : a = b ∨ R a b := by
  obtain ⟨-, before, after, rfl, hnone⟩ := List.find?_eq_some_iff_append.1 hfind
  rcases List.mem_append.1 hb with hbefore | hafter
  · exact absurd hpb (by simpa using hnone b hbefore)
  · rcases List.mem_cons.1 hafter with rfl | hafter
    · exact .inl rfl
    · exact .inr (List.rel_of_pairwise_cons (List.pairwise_append.1 hpairs).2.1 hafter)

section orderly

variable {w w' : World} {email : String} {kind : Kind} {c : Challenge} {id : Nat}

theorem World.Fresh.orderly (h : w.Fresh) : Orderly w where
  numbered := h.tried.numbered
  follows := h.challenges.symm ▸ .nil
  lasting email kind c hc := by
    rw [h.challenges] at hc
    cases hc
  only := h.history.symm ▸ onlyNewest_nil

theorem mem_pending : c ∈ w.pending email kind ↔ c ∈ w.challenges ∧ c.Of email kind ∧ c.consumedAt = none := by
  simp [World.pending]

/-- The latest pending row is the last of its kind, if no later one has been consumed. -/
theorem Orderly.newest (hw : Orderly w) (hlatest : w.Latest email kind (some c))
    (hlater : ∀ c' ∈ w.challenges, c'.Of email kind → c.id < c'.id → c'.consumedAt = none) :
    w.challenges.find? (fun c => c.Of email kind) = some c := by
  obtain ⟨hc, hmax⟩ := hlatest
  obtain ⟨hmem, hof, hpending⟩ := mem_pending.1 hc
  cases hfind : w.challenges.find? fun c => c.Of email kind with
  | none => exact absurd (decide_eq_true hof) (List.find?_eq_none.1 hfind c hmem)
  | some c₀ =>
    have hmem₀ := List.mem_of_find?_eq_some hfind
    have hfound := List.find?_some hfind
    have hof₀ : c₀.Of email kind := of_decide_eq_true hfound
    rcases find_first hw.follows hfind hmem (decide_eq_true hof) with rfl | ⟨hid, hcreated⟩
    · rfl
    · -- a later row is pending, so that it is the latest instead
      have hpending₀ := hlater c₀ hmem₀ hof₀ hid
      have holder := hcreated (by rwa [Challenge.Of, hof₀.1, hof₀.2]) hpending₀ hpending
      exact absurd (hmax c₀ (mem_pending.2 ⟨hmem₀, hof₀, hpending₀⟩)) (not_le.2 holder)

theorem Orderly.same (hw : Orderly w) (h : w.Same w') : Orderly w' where
  numbered := h.numbered hw.numbered
  follows := h.challenges ▸ hw.follows
  lasting := by
    rw [h.challenges, h.history]
    exact hw.lasting
  only := h.history ▸ hw.only

/-- An event that is about no issue or acceptance is recorded. -/
theorem Orderly.note {e : Event} (hw : Orderly w) (hchallenges : w'.challenges = w.challenges)
    (hhistory : w'.history = e :: w.history) (he : ∀ email kind, e.about email kind = false) : Orderly w' where
  numbered := by
    rw [World.Numbered, hchallenges]
    exact hw.numbered
  follows := hchallenges ▸ hw.follows
  lasting := by
    rw [hchallenges, hhistory]
    intro email kind c hc hpending
    exact (List.find?_cons_of_neg (by simp [he email kind])).trans (hw.lasting email kind c hc hpending)
  only := by
    rw [hhistory]
    refine hw.only.cons fun id email kind heq => ?_
    have habout := he email kind
    rw [heq] at habout
    simp [Event.about] at habout

/-- Rows are known by their numbers. -/
theorem Orderly.eq_of_id {c' : Challenge} (hw : Orderly w) (hc : c ∈ w.challenges) (hc' : c' ∈ w.challenges)
    (hid : c.id = c'.id) : c = c' := by
  have hfirst : ∀ d d', d ∈ w.challenges → w.challenges.find? (fun d => d.id = c'.id) = some d' → d.id = c'.id → d' = d := by
    intro d d' hd hfind heq
    have hfound := List.find?_some hfind
    have heq' : d'.id = c'.id := of_decide_eq_true hfound
    refine (find_first hw.follows hfind hd (decide_eq_true heq)).resolve_right fun hlt => ?_
    exact absurd hlt.1 (by rw [heq, heq']; exact lt_irrefl _)
  cases hfind : w.challenges.find? fun d => d.id = c'.id with
  | none => exact absurd (decide_eq_true rfl) (List.find?_eq_none.1 hfind c' hc')
  | some d => exact (hfirst c d hc hfind hid).symm.trans (hfirst c' d hc' hfind rfl)

/-- A row is issued where those of its kind that are pending are older. -/
theorem Orderly.insert {secretHash : String} {expiresAt : Time} (hw : Orderly w)
    (holder : ∀ c ∈ w.pending email kind, c.createdAt < w.clock) :
    Orderly (w.insertChallenge email kind secretHash expiresAt) where
  numbered := numbered_insert hw.numbered
  follows := by
    refine List.pairwise_cons.2 ⟨fun c hc => ⟨hw.numbered c hc, fun hof _ hpending => ?_⟩, hw.follows⟩
    exact holder c (mem_pending.2 ⟨hc, hof, hpending⟩)
  lasting email' kind' c hfind hpending := by
    simp only [World.insertChallenge, List.find?_cons] at hfind ⊢
    cases hkind : decide (email = email' ∧ kind = kind') with
    | true =>
      obtain ⟨rfl, rfl⟩ := of_decide_eq_true hkind
      simp only [Challenge.Of, and_self, decide_true, Option.some.injEq] at hfind
      subst hfind
      simp [Event.about]
    | false =>
      have hother : ¬ (email = email' ∧ kind = kind') := of_decide_eq_false hkind
      simp only [Challenge.Of, hother, decide_false, Event.about] at hfind ⊢
      exact hw.lasting email' kind' c hfind hpending
  only := hw.only.cons fun _ _ _ heq => nomatch heq

/-- What an update leaves of a row: it is pending only if it was. -/
structure Challenge.Kept (c c' : Challenge) : Prop where
  id : c'.id = c.id
  email : c'.email = c.email
  kind : c'.kind = c.kind
  createdAt : c'.createdAt = c.createdAt
  pending : c'.consumedAt = none → c.consumedAt = none

theorem Challenge.Follows.kept {c' d d' : Challenge} (h : c.Follows c') (hd : c.Kept d) (hd' : c'.Kept d') : d.Follows d' := by
  refine ⟨by rw [hd.id, hd'.id]; exact h.1, fun hof hpending hpending' => ?_⟩
  rw [hd.createdAt, hd'.createdAt]
  refine h.2 ?_ (hd.pending hpending) (hd'.pending hpending')
  rwa [Challenge.Of, hd'.email, hd'.kind, hd.email, hd.kind] at hof

/-- The first row of a kind after an update is the one that was the first. -/
theorem find_update {f : Challenge → Challenge} (hf : ∀ c : Challenge, c.Kept (f c)) :
    (w.updateChallenge id f).challenges.find? (fun c => c.Of email kind) =
      (w.challenges.find? fun c => c.Of email kind).map fun c => if c.id = id then f c else c := by
  have hof : ∀ c : Challenge, (if c.id = id then f c else c).Of email kind ↔ c.Of email kind := by
    intro c
    split
    · rw [Challenge.Of, (hf c).email, (hf c).kind, Challenge.Of]
    · exact .rfl
  simp only [World.updateChallenge, List.find?_map, Function.comp_def, hof]

theorem Orderly.update {f : Challenge → Challenge} (hf : ∀ c : Challenge, c.Kept (f c)) (hw : Orderly w) :
    Orderly (w.updateChallenge id f) := by
  have hkept : ∀ c : Challenge, c.Kept (if c.id = id then f c else c) := by
    intro c
    split
    · exact hf c
    · exact ⟨rfl, rfl, rfl, rfl, fun h => h⟩
  refine ⟨numbered_update (fun c => (hf c).id) hw.numbered, ?_, fun email kind c hc hpending => ?_, hw.only⟩
  · exact List.pairwise_map.2 (hw.follows.imp fun h => h.kept (hkept _) (hkept _))
  · rw [find_update hf] at hc
    obtain ⟨c₀, hfind, rfl⟩ := Option.map_eq_some_iff.1 hc
    rw [(hkept c₀).id]
    exact hw.lasting email kind c₀ hfind ((hkept c₀).pending hpending)

theorem kept_consume (now : Time) (c : Challenge) : c.Kept { c with consumedAt := some now } :=
  ⟨rfl, rfl, rfl, rfl, fun h => nomatch h⟩

theorem Orderly.consume (hw : Orderly w) : Orderly (w.consume id) := hw.update (kept_consume w.clock)

/-- The last row of its kind is accepted. -/
theorem Orderly.accept (hw : Orderly w) (hfind : w.challenges.find? (fun c' => c'.Of c.email c.kind) = some c)
    (hpending : c.consumedAt = none) : Orderly ((w.consume c.id).record (.accepted c.id c.email c.kind)) where
  numbered := hw.consume.numbered
  follows := hw.consume.follows
  lasting email kind c' hc' hpending' := by
    cases hkind : decide (c.email = email ∧ c.kind = kind) with
    | true =>
      obtain ⟨rfl, rfl⟩ := of_decide_eq_true hkind
      have hfirst : (w.consume c.id).challenges.find? (fun c' => c'.Of c.email c.kind) = some c' := hc'
      rw [World.consume, find_update (kept_consume w.clock), hfind, Option.map_some, if_pos rfl] at hfirst
      cases hfirst
      cases hpending'
    | false =>
      have hother : ¬ (c.email = email ∧ c.kind = kind) := of_decide_eq_false hkind
      have habout : ¬ Event.about email kind (.accepted c.id c.email c.kind) := by simpa [Event.about] using hother
      exact (List.find?_cons_of_neg habout).trans (hw.consume.lasting email kind c' hc' hpending')
  only := hw.only.cons fun id email kind heq => by
    cases heq
    exact hw.lasting c.email c.kind c hfind hpending

end orderly

/-! ## Requests one after the other -/

/-- What the session that is served has learned is still so. -/
structure Learned (w : World) (s : Seen) : Prop where
  looked : ∀ email kind o, s.looked = some (email, kind, o) → w.Latest email kind o
  cooled : s.cooled → ∀ email kind c, s.looked = some (email, kind, some c) → c.createdAt < w.clock
  matched : ∀ c, s.matched = some c → (∃ email kind, s.looked = some (email, kind, some c)) ∧
    ∀ c' ∈ w.challenges, c'.Of c.email c.kind → c.id < c'.id → c'.consumedAt = none

section learned

variable {w w' : World} {seen : Nat → Seen} {s : Seen}

theorem learned_nothing (hlooked : s.looked = none) (hmatched : s.matched = none) : Learned w s where
  looked _ _ _ heq := nomatch hlooked.symm.trans heq
  cooled _ _ _ _ heq := nomatch hlooked.symm.trans heq
  matched _ heq := nomatch hmatched.symm.trans heq

theorem Learned.same (h : Learned w s) (hchallenges : w'.challenges = w.challenges) (hclock : w.clock ≤ w'.clock) :
    Learned w' s where
  looked email kind o heq := by
    have hlatest := h.looked email kind o heq
    cases o with
    | none => rwa [World.Latest, World.pending, hchallenges]
    | some c => rwa [World.Latest, World.pending, hchallenges]
  cooled hcooled email kind c heq := (h.cooled hcooled email kind c heq).trans_le hclock
  matched c heq := hchallenges ▸ h.matched c heq

/-- Every call of a session that is served alone keeps the rows in order, where the secret of no
challenge is presented that has been overtaken. -/
theorem Step.orderly {β : Type} {o : Op β} {r : β} (h : Step o w r w') (hallows : s.Allows o) (hnot : NotOvertaken 0 o w)
    (hw : Orderly w) (hs : Learned w s) : Orderly w' ∧ Learned w' (s.next o r) := by
  have heffect := h.effect
  cases o with
  | now =>
    obtain ⟨rfl, rfl⟩ := heffect
    refine ⟨hw, hs.looked, fun hcooled email kind c heq => ?_, hs.matched⟩
    have hlooked : s.looked = some (email, kind, some c) := heq
    rcases Bool.or_eq_true_iff.1 hcooled with hbefore | hnow
    · exact hs.cooled hbefore email kind c hlooked
    · simpa [Seen.past, hlooked] using hnow
  | hmacEqual c secretHash =>
    obtain ⟨hr, rfl⟩ := heffect
    refine ⟨hw.note rfl rfl fun _ _ => rfl, ?_⟩
    have hsame : Learned (w.record (.guessed c.id r)) s := hs.same rfl (le_refl _)
    cases r with
    | false => exact hsame
    | true =>
      -- the right secret is not one of a row that has been overtaken
      refine ⟨hsame.looked, hsame.cooled, fun c' heq => ?_⟩
      cases heq
      exact ⟨hallows.2, hnot (of_decide_eq_true hr.symm)⟩
  | repo q =>
    cases q with
    | latestPendingChallenge email kind =>
      obtain ⟨hlatest, rfl⟩ := heffect
      cases r with
      | error e => exact ⟨hw, hs⟩
      | ok o =>
        refine ⟨hw, fun email' kind' o' heq => ?_, fun hcooled => (by cases hcooled), fun c heq => (by cases heq)⟩
        cases heq
        exact hlatest o rfl
    | createChallenge email kind secretHash expiresAt =>
      refine ⟨?_, learned_nothing rfl rfl⟩
      rcases heffect with rfl | rfl
      · exact hw
      · obtain ⟨o, hlooked, hcooled⟩ := hallows
        have hlatest := hs.looked email kind o hlooked
        refine hw.insert fun c hc => ?_
        cases o with
        | none => exact absurd hc (hlatest ▸ List.not_mem_nil)
        | some c₀ =>
          have hpast := hs.cooled (hcooled.resolve_left (Option.some_ne_none c₀)) email kind c₀ hlooked
          exact (hlatest.2 c hc).trans_lt hpast
    | incChallengeAttempts id =>
      refine ⟨?_, learned_nothing rfl rfl⟩
      rcases heffect with rfl | rfl
      · exact hw
      · exact hw.update fun _ => ⟨rfl, rfl, rfl, rfl, fun h => h⟩
    | consumeChallenge id =>
      rcases heffect with ⟨c', hc', ⟨hid', hpending⟩, rfl, rfl⟩ | ⟨⟨e, rfl⟩, rfl | rfl⟩
      · refine ⟨?_, learned_nothing rfl rfl⟩
        obtain ⟨c, hmatched, hid⟩ := hallows
        obtain ⟨⟨email, kind, hlooked⟩, hlater⟩ := hs.matched c hmatched
        have hlatest := hs.looked email kind (some c) hlooked
        obtain ⟨hmem, ⟨rfl, rfl⟩, -⟩ := mem_pending.1 hlatest.1
        have hsame : c' = c := hw.eq_of_id hc' hmem (hid'.trans hid.symm)
        subst hsame
        exact hid' ▸ hw.accept (hw.newest hlatest hlater) hpending
      · exact ⟨hw, learned_nothing rfl rfl⟩
      · exact ⟨hw.consume, learned_nothing rfl rfl⟩
    | createSession through token userID now expiresAt =>
      obtain ⟨hchallenges, hclock, hhistory⟩ := heffect
      have hlearned := hs.same hchallenges hclock
      refine ⟨?_, hlearned.looked, hlearned.cooled, hlearned.matched⟩
      rcases hhistory with hhistory | hhistory
      · exact hw.same ⟨hchallenges, hhistory, hclock⟩
      · cases through with
        | none => exact hw.same ⟨hchallenges, hhistory, hclock⟩
        | some id => exact hw.note hchallenges hhistory fun _ _ => rfl
    | _ => exact ⟨hw.same heffect, hs.same heffect.challenges heffect.clock⟩
  | _ => exact ⟨hw.same heffect, hs.same heffect.challenges heffect.clock⟩

end learned

/-! ## Runs -/

/-- In every sequence of requests in which the secret of no challenge is presented that has been
overtaken, only the newest code or link of a kind is accepted, and none issued before an acceptance. -/
theorem newest_accepted (svc : Service) {w : World} (hfresh : w.Fresh) {past : List (Pool Op World (Except Err Unit))}
    {p : Pool Op World (Except Err Unit)}
    (h : Run (Pool.Next (sequential.given NotOvertaken) (Program svc)) (.idle w) past p) : OnlyNewest p.shared.history := by
  obtain ⟨past', q, hrun, rfl⟩ := Pool.run_watched (W := monitor) h
  have horderly : Orderly q.shared.1 ∧ Learned q.shared.1 (q.shared.2 0) := by
    refine Pool.watched_invariant (I := fun x : World × (Nat → Seen) => Orderly x.1 ∧ Learned x.1 (x.2 0)) hrun
      (fun m hm => program_accepts hm) ⟨hfresh.orderly, learned_nothing rfl rfl⟩ ?_ ?_ ?_
    · intro i β o r x x' ⟨hx, hlearned⟩ hallows _ ⟨hnot, hzero, hstep⟩ hseen
      cases hzero
      rw [hseen, Function.update_self]
      exact hstep.orderly hallows hnot hx hlearned
    · intro i x ⟨hx, hlearned⟩
      refine ⟨hx, ?_⟩
      cases i with
      | zero =>
        change Learned x.1 (Function.update x.2 0 {} 0)
        rw [Function.update_self]
        exact learned_nothing rfl rfl
      | succ i =>
        change Learned x.1 (Function.update x.2 (i + 1) {} 0)
        rwa [Function.update_of_ne (Nat.succ_ne_zero i).symm]
    · intro x w' ⟨hx, hlearned⟩ ⟨hclock, hchallenges, hhistory⟩
      exact ⟨hx.same ⟨hchallenges, hhistory, hclock⟩, hlearned.same hchallenges hclock⟩
  exact horderly.1.only

/-! ### A code that is read again -/

def alone (i : Nat) {β : Type} (_ : Op β) (_ : World) : Bool := i = 0

theorem alone_step (i : Nat) {β : Type} (o : Op β) (w : World) (r : β) (w' : World)
    (h : guarded alone execs i o w = some (r, w')) : sequential.step i o w r w' :=
  guarded_step (fun _ _ _ _ hi => of_decide_eq_true hi) execs_step i o w r w' h

def notOvertaken (_ : Nat) : {β : Type} → Op β → World → Bool
  | _, .hmacEqual c secretHash, w => c.secretHash = secretHash →
    ∀ c' ∈ w.challenges, c'.Of c.email c.kind → c.id < c'.id → c'.consumedAt = none
  | _, _, _ => true

theorem notOvertaken_holds (i : Nat) {β : Type} (o : Op β) (w : World) (h : notOvertaken i o w) : NotOvertaken i o w := by
  cases o with
  | hmacEqual c secretHash =>
    have hlater : c.secretHash = secretHash → ∀ c' ∈ w.challenges, c'.Of c.email c.kind → c.id < c'.id → c'.consumedAt = none :=
      of_decide_eq_true h
    exact hlater
  | _ => trivial

def oneMinute : Turns := [.env fun w => { w with clock := w.clock + minute }]

theorem oneMinute_legal : oneMinute.Forall (Turn.Legal sequential (Program plainService)) := by
  intro w
  refine ⟨?_, rfl, rfl⟩
  have hminute : 0 ≤ minute := by decide
  exact Int.le_add_of_nonneg_right hminute

/-- A code is sent, and another one a minute later. -/
def sentTwice : Turns := sent ++ [.finish 0] ++ oneMinute ++ serves 0 (.sendCode "ip" "ann@example.com") 8 ++ [.finish 0]

theorem sentTwice_legal : sentTwice.Forall (Turn.Legal sequential (Program plainService)) := by
  refine List.forall_append.2 ⟨List.forall_append.2 ⟨List.forall_append.2 ⟨?_, oneMinute_legal⟩, serves_legal ..⟩, trivial⟩
  exact List.forall_append.2 ⟨serves_legal .., trivial⟩

/-- The second one is accepted. -/
def secondAccepted : Turns := sentTwice ++ guesses 0 "222222" 11

theorem secondAccepted_legal : secondAccepted.Forall (Turn.Legal sequential (Program plainService)) :=
  List.forall_append.2 ⟨sentTwice_legal, serves_legal ..⟩

theorem newest_accepted_second : ∃ past p,
    Run (Pool.Next (sequential.given NotOvertaken) (Program plainService)) (.idle emptyWorld) past p ∧
    .accepted 1 "ann@example.com" .loginCode ∈ p.shared.history ∧ OnlyNewest p.shared.history := by
  have hplay : (Pool.play (guarded notOvertaken (guarded alone execs)) secondAccepted (.idle emptyWorld)).any fun p =>
      .accepted 1 "ann@example.com" .loginCode ∈ p.shared.history := by decide
  obtain ⟨past, p, hrun, hcheck⟩ := Pool.play_any (guarded_step notOvertaken_holds alone_step) secondAccepted_legal hplay
  exact ⟨past, p, hrun, of_decide_eq_true hcheck, newest_accepted plainService emptyWorld_fresh hrun⟩

/-- Then the first one. -/
def bothAccepted : Turns := secondAccepted ++ [.finish 0] ++ guesses 0 "111111" 11

theorem bothAccepted_legal : bothAccepted.Forall (Turn.Legal sequential (Program plainService)) :=
  List.forall_append.2 ⟨List.forall_append.2 ⟨secondAccepted_legal, trivial⟩, serves_legal ..⟩

/-- The first code is accepted after the second one. -/
def firstAcceptedLast (history : List Event) : Bool :=
  history.drop 1 = .accepted 0 "ann@example.com" .loginCode :: history.drop 2 ∧
  (history.drop 2).find? (Event.about "ann@example.com" .loginCode) = some (.accepted 1 "ann@example.com" .loginCode)

theorem older_accepted : ¬ ∀ (svc : Service) (w : World), w.Fresh → ∀ past (p : Pool Op World (Except Err Unit)),
    Run (Pool.Next sequential (Program svc)) (.idle w) past p → OnlyNewest p.shared.history := by
  intro h
  have hplay : (Pool.play (guarded alone execs) bothAccepted (.idle emptyWorld)).any fun p =>
      firstAcceptedLast p.shared.history := by decide
  obtain ⟨past, p, hrun, hcheck⟩ := Pool.play_any alone_step bothAccepted_legal hplay
  obtain ⟨hlast, hbefore⟩ := of_decide_eq_true hcheck
  have hissued := h plainService emptyWorld emptyWorld_fresh past p hrun 0 "ann@example.com" .loginCode
    (p.shared.history.drop 2) (hlast ▸ List.drop_suffix 1 _)
  cases hissued.symm.trans hbefore

end Ploykit.Identity

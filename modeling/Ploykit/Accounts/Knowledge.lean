import Ploykit.Accounts.Progress
import Ploykit.Accounts.Record

/-!
# Answers hold

What a monitor has noted of the answers of a session is so, and stays so whatever the others do.
-/

namespace Ploykit.Accounts

open Lib hiding Time
open Webx
open Identity (Time)

/-! ## What has been noted -/

/-- Of the links, `old` have been there from the start. -/
structure Progress.Holds (old : List OAuthAccount) (w : World) (γ : Progress) : Prop where
  caller : ∀ p, γ.caller = some p → p.source = .session →
    ∃ s, w.sessions.get p.credential = some s ∧ s.userID = p.userID ∧ s.impersonatedBy = p.impersonatedBy
  row : ∀ l u, γ.row = some (l, u) → l.Finds u ∧ ∃ u', w.users.get u.id = some u' ∧ u.Becomes u'
  replaced : ∀ userID generation, γ.replaced = some (userID, generation) →
    ∃ u, w.users.get userID = some u ∧ generation ≤ u.generation
  closed : ∀ userID generation, γ.closed = some (userID, generation) → .closed userID generation ∈ w.history
  reopened : ∀ x, γ.reopened = some x →
    ∃ s, w.sessions.get x.token = some s ∧ s.userID = x.userID ∧ s.proof = .change x.generation
  found : ∀ l, γ.found = some l → l ∈ old ∨ .linked l ∈ w.history
  link : ∀ l, γ.link = some l → .linked l ∈ w.history
  deleted : ∀ userID, γ.deleted = some userID → ∃ email, .deleted userID email ∈ w.history

/-- Every link is on record. -/
def World.LinksRecorded (old : List OAuthAccount) (w : World) : Prop := ∀ l ∈ w.links.rows, l ∈ old ∨ .linked l ∈ w.history

section holds

variable {old : List OAuthAccount} {w w' : World} {γ : Progress}

theorem Progress.holds_init : ({} : Progress).Holds old w := by
  constructor <;> intros <;> contradiction

theorem Progress.Holds.grows (h : γ.Holds old w) (hgrows : w.Grows w') : γ.Holds old w' where
  caller p hp hsource := by
    obtain ⟨s, hs, huser, hmark⟩ := h.caller p hp hsource
    obtain ⟨s', hs', hbecomes⟩ := hgrows.sessions hs
    exact ⟨s', hs', hbecomes.userID.trans huser, hbecomes.impersonatedBy.trans hmark⟩
  row l u hrow := by
    obtain ⟨hfinds, u', hu', hbecomes⟩ := h.row l u hrow
    obtain ⟨u'', hu'', hbecomes'⟩ := hgrows.users hu'
    exact ⟨hfinds, u'', hu'', hbecomes.trans hbecomes'⟩
  replaced userID generation hγ := by
    obtain ⟨u, hu, hle⟩ := h.replaced userID generation hγ
    obtain ⟨u', hu', hbecomes⟩ := hgrows.users hu
    exact ⟨u', hu', hle.trans hbecomes.generation⟩
  closed userID generation hγ := hgrows.mem (h.closed userID generation hγ)
  reopened x hγ := by
    obtain ⟨s, hs, huser, hproof⟩ := h.reopened x hγ
    obtain ⟨s', hs', hbecomes⟩ := hgrows.sessions hs
    exact ⟨s', hs', hbecomes.userID.trans huser, hbecomes.proof.trans hproof⟩
  found l hγ := (h.found l hγ).imp_right hgrows.mem
  link l hγ := hgrows.mem (h.link l hγ)
  deleted userID hγ := by
    obtain ⟨email, hmem⟩ := h.deleted userID hγ
    exact ⟨email, hgrows.mem hmem⟩

variable {cfg : Config} {β : Type} {q : Query β}

theorem Query.mem_links {l : OAuthAccount} (hl : l ∈ (q.exec cfg w).2.links.rows) :
    l ∈ w.links.rows ∨ .linked l ∈ q.records cfg w := by
  cases q with
  | linkOAuthAccount provider subject userID =>
    simp only [records, exec] at hl ⊢
    split at hl
    · exact .inl hl
    · rename_i huser
      split at hl
      · rename_i hfresh
        have hl : l ∈ (w.links.insert ⟨provider, subject, userID⟩ hfresh).rows := hl
        rcases Keyed.mem_insert.1 hl with hl | rfl
        · exact .inl hl
        · rw [if_neg huser, dif_pos hfresh]
          exact .inr (List.mem_singleton_self _)
      · split at hl <;> exact .inl hl
  | softDeleteUserTx actor userID now =>
    simp only [exec] at hl
    split at hl
    · exact .inl hl
    · split at hl
      · exact .inl (Keyed.mem_drop.1 hl).1
      · exact .inl hl
  | _ =>
    simp only [exec, World.insertUser] at hl
    (repeat' split at hl) <;> exact .inl hl

theorem World.LinksRecorded.effect (h : w.LinksRecorded old) {r : Except Err β} : (q.effect cfg w r).LinksRecorded old := by
  intro l hl
  rw [Query.effect_history]
  rcases Query.mem_links (q := q) hl with hl | hrecorded
  · exact (h l hl).imp_right (List.mem_append_right _)
  · exact .inr (List.mem_append_left _ (List.mem_append_right _ hrecorded))

theorem Progress.told_error {e : Err} : γ.told q (.error e) = γ := by
  cases q with
  | revokeAllUserSessions change userID => cases change <;> rfl
  | createSession party proof newToken userID passwordConfirmed impersonatedBy now => cases proof <;> rfl
  | _ => rfl

theorem Query.Told.exec_eq {a : β} (h : q.Told cfg w (.ok a)) : (q.exec cfg w).1 = .ok a := by
  rcases h with h | ⟨e, h⟩
  · exact h.symm
  · cases h

/-- The session that was opened. -/
theorem Query.createSession_ok {party : Party} {proof : Proof} {newToken userID : String} {passwordConfirmed : Bool}
    {impersonatedBy : Option Actor} {now exp : Time}
    (h : ((createSession party proof newToken userID passwordConfirmed impersonatedBy now).exec cfg w).1 = .ok exp) :
    ∃ u, w.users.get userID = some u ∧
      ((createSession party proof newToken userID passwordConfirmed impersonatedBy now).exec cfg w).2.sessions.get newToken
        = some (cfg.session party proof newToken passwordConfirmed impersonatedBy now u) := by
  simp only [exec] at h ⊢
  split at h
  · cases h
  · rename_i u hu
    split at h
    · cases h
    · rename_i hexpiry
      split at h
      · rename_i hfresh
        rw [if_neg hexpiry, dif_pos hfresh]
        exact ⟨u, hu, (Keyed.get_insert (h := hfresh)).trans (if_pos rfl)⟩
      · cases h

/-- What an answer tells holds. -/
theorem Progress.Holds.told (h : γ.Holds old w) (hlinks : w.LinksRecorded old) {r : Except Err β} (htold : q.Told cfg w r) :
    (γ.told q r).Holds old (q.effect cfg w r) := by
  have hgrows : w.Grows (q.effect cfg w r) := .of_effect q w r
  have hγ : γ.Holds old (q.effect cfg w r) := h.grows hgrows
  cases r with
  | error e =>
    rw [told_error]
    exact hγ
  | ok a =>
    have hexec : (q.exec cfg w).1 = .ok a := htold.exec_eq
    have hevent (e : Event) (he : e ∈ q.events cfg w) : e ∈ (q.effect cfg w (.ok a)).history := Query.mem_effect_of_ok (by rw [hexec]; rfl) he
    cases q with
    | verifySession token now =>
      refine { hγ with caller := fun p hp _ => ?_, row := fun l u hrow => by cases hrow }
      have hverify : w.verify token now = some p := (Except.ok.inj hexec).trans hp
      obtain ⟨s, u, hs, hu, -, -, rfl⟩ := World.verify_some hverify
      have htoken : s.token = token := Keyed.key_of_get hs
      exact ⟨s, by rw [← htoken] at hs; exact hs, (Keyed.key_of_get hu).symm, rfl⟩
    | resolvePAT token now =>
      refine { hγ with caller := fun p hp hsource => ?_, row := fun l u hrow => by cases hrow }
      have hresolve : w.resolve token now = some p := (Except.ok.inj hexec).trans hp
      obtain ⟨t, u, -, -, -, rfl⟩ := World.resolve_some hresolve
      cases hsource
    | getUser id =>
      refine { hγ with row := fun l u hrow => ?_ }
      cases hrow
      simp only [Query.exec] at hexec
      split at hexec
      · rename_i u hu
        split at hexec <;> cases hexec
        have hid : a.id = id := Keyed.key_of_get hu
        exact ⟨hid, hgrows.users (hid ▸ hu)⟩
      · cases hexec
    | getUserByID id =>
      refine { hγ with row := fun l u hrow => ?_ }
      obtain ⟨u', rfl, heq⟩ := Option.map_eq_some_iff.1 hrow
      cases heq
      have hu : w.users.get id = some u := Except.ok.inj hexec
      have hid : u.id = id := Keyed.key_of_get hu
      exact ⟨hid, hgrows.users (hid ▸ hu)⟩
    | getUserByEmail email =>
      refine { hγ with row := fun l u hrow => ?_ }
      obtain ⟨u', rfl, heq⟩ := Option.map_eq_some_iff.1 hrow
      cases heq
      obtain ⟨hu, hemail⟩ := World.find_email (Except.ok.inj hexec)
      exact ⟨hemail, hgrows.users hu⟩
    | upsertUserByEmail newID email now =>
      refine { hγ with row := fun l u hrow => ?_ }
      cases hrow
      rw [Query.effect_users]
      simp only [Query.exec] at hexec ⊢
      split at hexec
      · rename_i u hfind
        cases hexec
        obtain ⟨hu, hemail⟩ := World.find_email hfind
        exact ⟨hemail, a, hu, .rfl⟩
      · simp only [World.insertUser] at hexec ⊢
        split at hexec
        · rename_i hfresh
          cases hexec
          rw [dif_pos hfresh]
          exact ⟨rfl, _, by rw [Keyed.get_insert, if_pos rfl], .rfl⟩
        · cases hexec
    | setPasswordHash userID passwordHash now =>
      refine { hγ with replaced := fun id generation heq => ?_ }
      cases heq
      rw [Query.effect_users]
      simp only [Query.exec] at hexec ⊢
      split at hexec
      · cases hexec
      · rename_i u hu
        cases hexec
        refine ⟨{ u with passwordHash, tokensValidAfter := some now, generation := u.generation + 1 }, ?_, le_rfl⟩
        simp [World.updateUser, hu]
    | revokeAllUserSessions change userID =>
      cases change with
      | none => exact hγ
      | some generation =>
        refine { hγ with closed := fun id g heq => ?_ }
        cases heq
        exact hevent _ (List.mem_singleton_self _)
    | createSession party proof newToken userID passwordConfirmed impersonatedBy now =>
      cases proof with
      | change generation =>
        refine { hγ with reopened := fun x heq => ?_ }
        cases heq
        obtain ⟨u, hu, hs⟩ := Query.createSession_ok hexec
        have huser : u.id = userID := Keyed.key_of_get hu
        exact ⟨_, hs, huser, rfl⟩
      | _ => exact hγ
    | findOAuthAccount provider subject =>
      refine { hγ with found := fun l heq => ?_ }
      obtain ⟨id, hid, rfl⟩ := Option.map_eq_some_iff.1 heq
      subst hid
      obtain ⟨l, hl, huser⟩ := Option.map_eq_some_iff.1 (Except.ok.inj hexec)
      have hkey : l.key = (provider, subject) := Keyed.key_of_get hl
      obtain rfl : l = ⟨provider, subject, id⟩ := by
        cases l
        cases hkey
        cases huser
        rfl
      exact (hlinks _ (Keyed.mem_of_get hl)).imp_right hgrows.mem
    | linkOAuthAccount provider subject userID =>
      refine { hγ with link := fun l heq => ?_ }
      cases heq
      exact hevent _ (List.mem_singleton_self _)
    | softDeleteUserTx actor userID now =>
      refine { hγ with deleted := fun id heq => ?_ }
      cases heq
      simp only [Query.exec] at hexec
      split at hexec
      · cases hexec
      · rename_i u hu
        refine ⟨u.email, hevent _ ?_⟩
        simp [Query.events, hu]
    | _ => exact hγ

end holds

/-! ## Runs -/

/-- The links are on record, and every session knows what it has been answered. -/
structure Known (old : List OAuthAccount) (x : World × (Nat → Progress)) : Prop where
  links : x.1.LinksRecorded old
  holds : ∀ i, (x.2 i).Holds old x.1

section runs

variable {old : List OAuthAccount} {svc : Service} {C : {β : Type} → Query β → World → Prop} {scope : Call → Prop} {w : World}
  {past : List (Pool Op World (Except Err Reply))} {p : Pool Op World (Except Err Reply)}
  {x x' : World × (Nat → Progress)}

theorem Known.grows {w' : World} (h : Known old x) (hgrows : x.1.Grows w') (hlinks : w'.links = x.1.links) :
    Known old (w', x.2) where
  links l hl := (h.links l (hlinks ▸ hl)).imp_right hgrows.mem
  holds i := (h.holds i).grows hgrows

/-- What a call leaves, and what its session knows then. -/
theorem Known.exec {β : Type} {o : Op β} {r : β} {w' : World} {i : Nat} (h : Known old x) (hstep : Step svc o x.1 r w') :
    Known old (w', Function.update x.2 i (monitor.next (x.2 i) o r)) := by
  have hothers : ∀ {w'} {γ : Progress}, x.1.Grows w' → γ.Holds old w' → w'.LinksRecorded old →
      Known old (w', Function.update x.2 i γ) := by
    intro w' γ hgrows hγ hlinks
    refine ⟨hlinks, fun j => ?_⟩
    by_cases hji : j = i
    · subst hji
      simpa using hγ
    · simpa [Function.update_of_ne hji] using (h.holds j).grows hgrows
  cases o with
  | db q =>
    rcases hstep with ⟨htold, rfl⟩ | ⟨⟨e, rfl⟩, rfl⟩
    · exact hothers (.of_effect q x.1 r) ((h.holds i).told h.links htold) h.links.effect
    · refine hothers .rfl ?_ h.links
      change ((x.2 i).told q (.error e)).Holds old x.1
      rw [Progress.told_error]
      exact h.holds i
  | now | exchange =>
    obtain ⟨-, rfl⟩ := hstep
    exact hothers .rfl (h.holds i) h.links
  | _ =>
    obtain rfl : w' = x.1 := hstep
    exact hothers .rfl (h.holds i) h.links

/-- The runs with the last answers of each session beside them. -/
abbrev Watched (svc : Service) (C : {β : Type} → Query β → World → Prop) (scope : Call → Prop) :
    Pool Op (World × (Nat → Progress)) (Except Err Reply) → Pool Op (World × (Nat → Progress)) (Except Err Reply) → Prop :=
  Pool.Next (((machineGiven svc C).watched monitor).given Pool.unconditional) (Program svc scope)

/-- The last answers of session `i` in a run from `w` that has come to `p`. -/
def Answered (svc : Service) (C : {β : Type} → Query β → World → Prop) (scope : Call → Prop) (w : World)
    (p : Pool Op World (Except Err Reply)) (i : Nat) (γ : Progress) : Prop :=
  ∃ past' p', Run (Watched svc C scope) (.idle (w, fun _ => {})) past' p' ∧ p'.plain = p ∧ p'.shared.2 i = γ

/-- Beside a run goes one that knows all answers, where the effects of statements in order keep an invariant. -/
theorem known_run {I : World × (Nat → Progress) → Prop}
    (h : Run (Pool.Next (machineGiven svc C) (Program svc scope)) (.idle w) past p) (hinit : I (w, fun _ => {}))
    (hI : ∀ {γ : Type} (q : Query γ) (x : World × (Nat → Progress)) (i : Nat) (r : Except Err γ), q.Told svc.cfg x.1 r →
      C q x.1 → (x.2 i).Asks q → Known w.links.rows x → I x →
      I (q.effect svc.cfg x.1 r, Function.update x.2 i ((x.2 i).told q r)))
    (htick : ∀ (x : World × (Nat → Progress)) t, x.1.clock ≤ t → I x → I ({ x.1 with clock := t }, x.2)) :
    ∃ past' p', Run (Watched svc C scope) (.idle (w, fun _ => {})) past' p' ∧ p'.plain = p ∧
      p'.Replies monitor (fun γ r => γ.Vouches svc r) ∧ Known w.links.rows p'.shared ∧ I p'.shared := by
  obtain ⟨past', p', hrun, hplain⟩ := Pool.run_watched (W := monitor) h
  refine ⟨past', p', hrun, hplain, Pool.run_replies hrun (fun m hm => hm.accepted) fun m hm γ _ => hm.replies γ, ?_⟩
  refine Pool.watched_invariant (I := fun x => Known w.links.rows x ∧ I x) hrun (fun m hm => hm.accepted) ?_ ?_ ?_ ?_
  · exact ⟨⟨fun l hl => .inl hl, fun i => Progress.holds_init⟩, hinit⟩
  · intro i β o r x x' hx hallows _ hstep hx'
    obtain ⟨w', γ'⟩ := x'
    obtain ⟨hC, hstep⟩ : o.Meets C x.1 ∧ Step svc o x.1 r w' := hstep
    obtain rfl : γ' = Function.update x.2 i (monitor.next (x.2 i) o r) := hx'
    refine ⟨hx.1.exec hstep, ?_⟩
    have hsame : I (x.1, Function.update x.2 i (x.2 i)) := by
      rw [Function.update_eq_self]
      exact hx.2
    cases o with
    | db q =>
      rcases hstep with ⟨htold, rfl⟩ | ⟨⟨e, rfl⟩, rfl⟩
      · exact hI q x i r htold hC hallows hx.1 hx.2
      · change I (x.1, Function.update x.2 i ((x.2 i).told q (.error e)))
        rw [Progress.told_error]
        exact hsame
    | now | exchange =>
      obtain ⟨-, rfl⟩ := hstep
      exact hsame
    | _ =>
      obtain rfl : w' = x.1 := hstep
      exact hsame
  · intro i x hx
    have hkept : Function.update x.2 i (monitor.abort (x.2 i)) = x.2 := Function.update_eq_self i x.2
    rw [hkept]
    exact hx
  · intro x w' hx henv
    obtain ⟨hclock, hw'⟩ := henv
    rw [hw']
    exact ⟨hx.1.grows .tick rfl, htick _ _ hclock hx.2⟩

/-- An invariant of the effects of statements that are in order holds in every state of a run. -/
theorem known_invariant {I : World → Prop}
    (h : Run (Pool.Next (machineGiven svc C) (Program svc scope)) (.idle w) past p) (hinit : I w)
    (hI : ∀ {γ : Type} (q : Query γ) (w' : World) (r : Except Err γ) (seen : Progress), q.Told svc.cfg w' r → C q w' →
      seen.Asks q → seen.Holds w.links.rows w' → I w' → I (q.effect svc.cfg w' r))
    (htick : ∀ w' t, w'.clock ≤ t → I w' → I { w' with clock := t }) : I p.shared := by
  obtain ⟨-, p', -, rfl, -, -, hI'⟩ := known_run (I := fun x => I x.1) h hinit
    (fun q x i r htold hC hasks hknown hx => hI q x.1 r (x.2 i) htold hC hasks (hknown.holds i) hx)
    fun x t ht hx => htick x.1 t ht hx
  exact hI'

/-- What a session replies has been answered to it. -/
theorem run_replied (h : Run (Pool.Next (machineGiven svc C) (Program svc scope)) (.idle w) past p) {i : Nat}
    {reply : Except Err Reply} (hi : p.session i = some (.ret reply)) :
    ∃ γ : Progress, Answered svc C scope w p i γ ∧ γ.Vouches svc reply ∧ γ.Holds w.links.rows p.shared := by
  obtain ⟨past', p', hrun, rfl, hreplies, hknown, -⟩ :=
    known_run (I := fun _ => True) h trivial (fun _ _ _ _ _ _ _ _ _ => trivial) fun _ _ _ _ => trivial
  exact ⟨p'.shared.2 i, ⟨past', p', hrun, rfl, rfl⟩, hreplies i _ hi, hknown.holds i⟩

end runs

end Ploykit.Accounts

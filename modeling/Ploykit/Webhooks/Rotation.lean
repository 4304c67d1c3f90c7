import Ploykit.Webhooks.Exclusive
import Ploykit.Webhooks.Subscriptions

/-!
# Secrets

The store keeps the current secret of a subscription and one secret before it, with an
expiry. A claim takes both out of the row; they sign the delivery, the older one while it
has not expired when the service looks at it.
-/

namespace Ploykit.Webhooks

open Lib

/-! ## Secrets in the history -/

/-- The sealed secret of a subscription, and the one that it has replaced, with its expiry. -/
structure Secrets where
  current : String
  retired : Option (String × Time)
  deriving DecidableEq

def Event.secrets (sub : String) : Event → Option Secrets
  | .created id secret => if id = sub then some ⟨secret, none⟩ else none
  | .rotated id retired oldExpiresAt secret => if id = sub then some ⟨secret, some (retired, oldExpiresAt)⟩ else none
  | _ => none

/-- The secrets by the last rotation, or by the creation. -/
def secretsOf (sub : String) (h : History) : Option Secrets := h.findSome? fun e => e.2.secrets sub

/-- The row has the secrets of the history. -/
def Secrets.Stored (s : Secrets) (secret : String) (oldSecret : Option String) (oldExpiresAt : Option Time) : Prop :=
  s.current = secret ∧ oldSecret = s.retired.map Prod.fst ∧ oldExpiresAt = s.retired.map Prod.snd

section history

variable {sub : String} {w : World} {events : List Event}

theorem secretsOf_record (h : ∀ e ∈ events, e.secrets sub = none) :
    secretsOf sub (w.record events).history = secretsOf sub w.history := by
  have hnone : (events.map fun e => (w.clock, e)).findSome? (fun e => e.2.secrets sub) = none := by
    refine List.findSome?_eq_none_iff.2 fun e he => ?_
    obtain ⟨ev, hev, rfl⟩ := List.mem_map.1 he
    exact h ev hev
  rw [secretsOf, World.record, List.findSome?_append, hnone]
  rfl

theorem Event.secrets_of_touches {e : Event} (h : e.touches sub = false) : e.secrets sub = none := by
  cases e with
  | created id secret => exact if_neg (of_decide_eq_false h)
  | rotated id retired oldExpiresAt secret => exact if_neg (of_decide_eq_false h)
  | _ => rfl

end history

/-! ## What verifies a request -/

namespace Service

variable (svc : Service)

/-- The key verifies one of the two headers. -/
def verifies (key : String) (req : Request) : Bool :=
  svc.verifySign key req.timestamp req.payload req.signature ||
    req.signatureOld.any (svc.verifySign key req.timestamp req.payload)

variable {svc}

theorem sign_inj (hinj : ∀ key key' msg, svc.hmac key msg = svc.hmac key' msg → key = key') {key key' : String}
    {t : Time} {body : String} : svc.sign key t body = svc.sign key' t body ↔ key = key' := by
  constructor
  · intro h
    exact hinj _ _ _ ((String.append_right_inj _).1 h)
  · intro h
    rw [h]

theorem verifies_iff (hinj : ∀ key key' msg, svc.hmac key msg = svc.hmac key' msg → key = key')
    {d : PendingDelivery} {t now : Time} {req : Request} (h : svc.Signs d t now req) {key : String} :
    svc.verifies key req ↔ svc.unsealSecret d.secret = .ok key ∨ key ≠ "" ∧ svc.oldPlainAt d t = key := by
  obtain ⟨secret, hsecret, rfl⟩ := h
  have hcurrent : svc.unsealSecret d.secret = .ok key ↔ key = secret := by
    rw [hsecret]
    exact ⟨fun h => (Except.ok.inj h).symm, fun h => h ▸ rfl⟩
  simp only [verifies, verifySign, request, Bool.or_eq_true, decide_eq_true_eq, sign_inj hinj, hcurrent]
  by_cases hold : svc.oldPlainAt d t = ""
  · have hnot : ¬ (key ≠ "" ∧ svc.oldPlainAt d t = key) := fun ⟨hkey, heq⟩ => hkey (heq.symm.trans hold)
    simp [hold, Ne.symm]
  · simp only [ne_eq, hold, not_false_eq_true, if_true, Option.any_some, verifySign, decide_eq_true_eq, sign_inj hinj]
    constructor
    · rintro (h | rfl)
      · exact .inl h
      · exact .inr ⟨hold, rfl⟩
    · rintro (h | ⟨-, h⟩)
      · exact .inl h
      · exact .inr h.symm

/-- The secret before the last rotation, from what the claim has found in the row. -/
theorem oldPlainAt_iff {d : PendingDelivery} {retired : Option (String × Time)}
    (hold : d.oldSealed = (retired.map Prod.fst).getD "") (hexpires : d.oldExpiresAt = retired.map Prod.snd)
    {t : Time} {key : String} (hkey : key ≠ "") :
    svc.oldPlainAt d t = key ↔ ∃ old expiresAt, retired = some (old, expiresAt) ∧ old ≠ "" ∧ t < expiresAt ∧
      svc.unsealSecret old = .ok key := by
  cases retired with
  | none =>
    rw [Option.map_none] at hexpires
    simp [oldPlainAt, hexpires, Ne.symm hkey]
  | some pair =>
    obtain ⟨old, expiresAt⟩ := pair
    rw [Option.map_some] at hold hexpires
    rw [Option.getD_some] at hold
    unfold oldPlainAt
    rw [hold, hexpires]
    dsimp only
    by_cases hempty : old = ""
    · simp [hempty, Ne.symm hkey]
    by_cases hlive : t < expiresAt
    · rw [if_neg hempty, if_pos hlive]
      cases hopen : svc.unsealSecret old with
      | error err => simp [hempty, hopen, hlive, Ne.symm hkey, Except.toOption]
      | ok plain => simp [hempty, hopen, hlive, Except.toOption]
    · simp [hempty, hlive, Ne.symm hkey]

end Service

/-! ## Claims and the secrets they carry -/

/-- Worker `i` has claimed the delivery last at the time `c`, after the history `before`. -/
def LastClaim (i : Nat) (d : PendingDelivery) (c : Time) (before h : History) : Prop :=
  ∃ since, h = since ++ (c, .claimed i d) :: before ∧
    ∀ e ∈ since, ∀ d', e.2 = .claimed i d' → d'.deliveryID ≠ d.deliveryID

theorem LastClaim.record {i : Nat} {d : PendingDelivery} {c : Time} {before : History} {w : World} {events : List Event}
    (h : LastClaim i d c before w.history)
    (hevents : ∀ d', .claimed i d' ∈ events → d'.deliveryID ≠ d.deliveryID) :
    LastClaim i d c before (w.record events).history := by
  obtain ⟨since, hh, hsince⟩ := h
  refine ⟨events.map (fun e => (w.clock, e)) ++ since, ?_, fun e he d' heq => ?_⟩
  · rw [World.record, hh, List.append_assoc]
  · rcases List.mem_append.1 he with he | he
    · obtain ⟨ev, hev, rfl⟩ := List.mem_map.1 he
      exact hevents d' (heq ▸ hev)
    · exact hsince e he d' heq

/-- A claimed delivery has the secrets of its subscription. -/
def PendingDelivery.Carries (d : PendingDelivery) (s : Secrets) : Prop :=
  s.current = d.secret ∧ d.oldSealed = (s.retired.map Prod.fst).getD "" ∧ d.oldExpiresAt = s.retired.map Prod.snd

/-- What a worker that has been told `readings` knows of a delivery in its hand. -/
def InHand (i : Nat) (d : PendingDelivery) (clock : Time) (readings : List Time) (h : History) : Prop :=
  ∃ c before secrets, LastClaim i d c before h ∧ secretsOf d.subscriptionID before = some secrets ∧
    d.Carries secrets ∧ c ≤ clock ∧ ∀ t ∈ readings, c ≤ t

theorem pendingDelivery_row {db : Db} {row : DeliveryRow} {d : PendingDelivery} (h : db.pendingDelivery row = some d) :
    ∃ s, db.subscription d.subscriptionID = some s ∧ d.secret = s.secret ∧ d.oldSealed = s.oldSecret.getD "" ∧
      d.oldExpiresAt = s.oldSecretExpiresAt := by
  obtain ⟨s, hs, rfl⟩ := Option.map_eq_some_iff.1 h
  obtain ⟨id, -, hrow⟩ := Option.bind_eq_some_iff.1 hs
  have hkey : s.id = id := Keyed.key_of_get hrow
  exact ⟨s, hkey ▸ hrow, rfl, rfl, rfl⟩

def Stmt.isClaim : {β : Type} → Stmt β → Bool
  | _, .claimPending _ => true
  | _, _ => false

section hand

variable {γ : Round} {i : Nat} {w w' : World} {db : Db} {d : PendingDelivery}

theorem Round.next_hand {β : Type} {s : Stmt β} {r : Except Err β} (h : s.isClaim = false ∨ ∃ err, r = .error err) :
    (∀ d ∈ (γ.next (.stmt s) r).hand, d ∈ γ.hand) ∧ (γ.next (.stmt s) r).readings = γ.readings := by
  cases s with
  | claimPending batchSize =>
    rcases h with h | ⟨err, rfl⟩
    · cases h
    · exact ⟨fun d hd => hd, rfl⟩
  | markDelivered deliveryID statusCode now =>
    cases r with
    | ok u => exact ⟨fun d hd => List.mem_of_mem_tail hd, rfl⟩
    | error err => exact ⟨fun d hd => List.mem_of_mem_tail hd, rfl⟩
  | markRetry deliveryID statusCode errMsg nextAt dead =>
    cases r with
    | ok u => exact ⟨fun d hd => List.mem_of_mem_tail hd, rfl⟩
    | error err => exact ⟨fun d hd => List.mem_of_mem_tail hd, rfl⟩
  | firstFailureAt sub =>
    match r with
    | .ok (some (some f)) => exact ⟨fun d hd => hd, rfl⟩
    | .ok (some none) => exact ⟨fun d hd => hd, rfl⟩
    | .ok none => exact ⟨fun d hd => hd, rfl⟩
    | .error err => exact ⟨fun d hd => hd, rfl⟩
  | _ => exact ⟨fun d hd => hd, rfl⟩

/-- The events that statements leave. -/
def Event.OfStmt (i : Nat) (isClaim : Bool) : Event → Prop
  | .posted _ _ => False
  | .succeeded _ => False
  | .crashed _ => False
  | .claimed j _ => j = i ∧ isClaim = true
  | _ => True

theorem Stmt.mem_events {β : Type} {s : Stmt β} {a : β} {e : Event} (he : e ∈ s.events i db a) :
    e.OfStmt i s.isClaim := by
  cases s with
  | claimPending batchSize =>
    obtain ⟨d', -, rfl⟩ := List.mem_map.1 he
    exact ⟨rfl, rfl⟩
  | markDelivered deliveryID statusCode now =>
    cases List.mem_singleton.1 he
    trivial
  | markRetry deliveryID statusCode errMsg nextAt dead =>
    cases List.mem_singleton.1 he
    trivial
  | clearFirstFailure deliveryID =>
    obtain ⟨sub, -, rfl⟩ := List.mem_map.1 he
    trivial
  | setFirstFailure deliveryID =>
    simp only [Stmt.events] at he
    split at he
    · cases he
    split at he
    · cases List.mem_singleton.1 he
      trivial
    · cases he
  | setSubscriptionActive cause workspaceID id active =>
    simp only [Stmt.events] at he
    split at he
    · cases he
    split at he
    · cases List.mem_singleton.1 he
      trivial
    · cases List.mem_singleton.1 he
      trivial
  | rotateSecret workspaceID id newSealed oldExpiresAt =>
    simp only [Stmt.events] at he
    split at he
    · cases he
    obtain ⟨row, -, rfl⟩ := List.mem_map.1 he
    trivial
  | createSubscription workspaceID eventTypes url secret =>
    cases List.mem_singleton.1 he
    trivial
  | _ => cases he

theorem Op.claimed_mem {β : Type} {o : Op β} {r : β} {j : Nat} (he : .claimed j d ∈ o.events i db r) : j = i := by
  cases o with
  | post req =>
    obtain ⟨answered, hquiet, hevents⟩ := @postEvents_split i db req r
    rw [Op.events, hevents] at he
    rcases List.mem_append.1 he with he | he
    · have hnot := (hquiet _ he d.deliveryID).2.1
      simp [Event.claims] at hnot
    · cases List.mem_singleton.1 he
  | stmt s =>
    cases r with
    | error err => cases he
    | ok a => exact (Stmt.mem_events he).1
  | _ => cases he

/-- A delivery in the hand of a worker has been there before, or is one of those just claimed. -/
theorem Step.hand {β : Type} {o : Op β} {r : β} (h : Step i o w r w') (hd : d ∈ (γ.next o r).hand) :
    (d ∈ γ.hand ∧ (∀ d', .claimed i d' ∉ o.events i w.db r) ∧
      ∀ t ∈ (γ.next o r).readings, t ∈ γ.readings ∨ t = w.clock) ∨
    ∃ later others : List PendingDelivery, o.events i w.db r = later.map (.claimed i) ++ .claimed i d :: others.map (.claimed i) ∧
      (∀ d' ∈ later, d'.deliveryID ≠ d.deliveryID) ∧ (γ.next o r).readings = [] ∧
      ∃ s, w.db.subscription d.subscriptionID = some s ∧ d.secret = s.secret ∧ d.oldSealed = s.oldSecret.getD "" ∧
        d.oldExpiresAt = s.oldSecretExpiresAt := by
  cases o with
  | now =>
    obtain ⟨rfl, -⟩ := h
    exact .inl ⟨hd, fun d' he => (List.not_mem_nil he).elim, fun t ht => (List.mem_cons.1 ht).symm⟩
  | post req =>
    refine .inl ⟨hd, fun d' he => ?_, fun t ht => .inl ht⟩
    obtain ⟨answered, hquiet, hevents⟩ := @postEvents_split i w.db req r
    rw [Op.events, hevents] at he
    rcases List.mem_append.1 he with he | he
    · have hnot := (hquiet _ he d'.deliveryID).2.1
      simp [Event.claims] at hnot
    · cases List.mem_singleton.1 he
  | stmt s =>
    rcases h with ⟨err, rfl, -⟩ | ⟨c, a, db', hrun, rfl, -⟩
    · obtain ⟨hhand, hreadings⟩ := @Round.next_hand γ _ s (.error err) (.inr ⟨err, rfl⟩)
      exact .inl ⟨hhand d hd, fun d' he => (List.not_mem_nil he).elim, fun t ht => .inl (hreadings ▸ ht)⟩
    cases hs : s.isClaim with
    | false =>
      obtain ⟨hhand, hreadings⟩ := @Round.next_hand γ _ s (.ok a) (.inl hs)
      refine .inl ⟨hhand d hd, fun d' he => ?_, fun t ht => .inl (hreadings ▸ ht)⟩
      rw [(Stmt.mem_events he).2] at hs
      cases hs
    | true =>
      cases s with
      | claimPending batchSize =>
        refine .inr ?_
        obtain ⟨later, others, rfl⟩ := List.append_of_mem hd
        obtain ⟨hnodup, -⟩ := claimPending_due hrun
        refine ⟨later, others, by simp [Op.events, Stmt.events], fun d' hd' heq => ?_, rfl, ?_⟩
        · rw [List.map_append, List.map_cons] at hnodup
          have hdisjoint := (List.nodup_append'.1 hnodup).2.2
          exact hdisjoint (heq ▸ List.mem_map_of_mem hd') (List.mem_cons_self ..)
        · have hpending : c.order ((w.db.claimed c w.clock batchSize).filterMap w.db.pendingDelivery)
              = later ++ d :: others := congrArg Prod.fst (Except.ok.inj hrun)
          have hmem : d ∈ c.order ((w.db.claimed c w.clock batchSize).filterMap w.db.pendingDelivery) := by
            rw [hpending]
            exact hd
          obtain ⟨row, -, hrow⟩ := List.mem_filterMap.1 ((c.order_perm _).mem_iff.1 hmem)
          exact pendingDelivery_row hrow
      | _ => cases hs
  | _ => exact .inl ⟨hd, fun d' he => (List.not_mem_nil he).elim, fun t ht => .inl ht⟩

end hand

/-! ## What is sent is signed with the secrets of its claim -/

/-- A request that is sent at `sentAt`. `looked` is when the service has looked at the expiry
of the older secret. -/
def Service.Signed (svc : Service) (sentAt : Time) (i : Nat) (req : Request) (h : History) : Prop :=
  ∃ d c before secrets looked, LastClaim i d c before h ∧ d.deliveryID = req.deliveryID ∧
    secretsOf d.subscriptionID before = some secrets ∧
    c ≤ looked ∧ looked ≤ req.timestamp ∧ req.timestamp ≤ sentAt ∧
    (∀ retired expiresAt, secrets.retired = some (retired, expiresAt) → ∃ rotatedAt,
      (rotatedAt, .rotated d.subscriptionID retired expiresAt secrets.current) ∈ before ∧
      expiresAt ≤ rotatedAt + oldSecretTTL) ∧
    ∀ key, svc.verifies key req ↔ svc.unsealSecret secrets.current = .ok key ∨
      key ≠ "" ∧ ∃ retired expiresAt, secrets.retired = some (retired, expiresAt) ∧ retired ≠ "" ∧
        looked < expiresAt ∧ svc.unsealSecret retired = .ok key

def Service.AllSigned (svc : Service) : History → Prop :=
  Throughout fun sentAt e earlier => ∀ i req, e = .posted i req → svc.Signed sentAt i req earlier

/-- No secret is kept longer than its time. -/
def ExpiriesBound (h : History) : Prop :=
  ∀ rotatedAt sub retired expiresAt secret, (rotatedAt, .rotated sub retired expiresAt secret) ∈ h →
    expiresAt ≤ rotatedAt + oldSecretTTL

structure Rotations (svc : Service) (w : World) (rounds : Nat → Round) : Prop where
  told : ∀ i, (rounds i).Told w.clock
  rows : ∀ sub row, w.db.subscription sub = some row → ∃ secrets, secretsOf sub w.history = some secrets ∧
    secrets.Stored row.secret row.oldSecret row.oldSecretExpiresAt
  expiries : ExpiriesBound w.history
  hands : ∀ i, ∀ d ∈ (rounds i).hand, InHand i d w.clock (rounds i).readings w.history
  signed : svc.AllSigned w.history

/-- The secret that is known to be retired has been so by a rotation. -/
theorem secretsOf_retired {sub : String} {h : History} {secrets : Secrets} (hs : secretsOf sub h = some secrets)
    {retired : String} {expiresAt : Time} (hretired : secrets.retired = some (retired, expiresAt)) :
    ∃ rotatedAt, (rotatedAt, .rotated sub retired expiresAt secrets.current) ∈ h := by
  obtain ⟨⟨t, e⟩, he, hsecrets⟩ := List.exists_of_findSome?_eq_some hs
  cases e with
  | created id secret =>
    simp only [Event.secrets, Option.ite_none_right_eq_some, Option.some.injEq] at hsecrets
    obtain ⟨-, rfl⟩ := hsecrets
    cases hretired
  | rotated id old expires secret =>
    simp only [Event.secrets, Option.ite_none_right_eq_some, Option.some.injEq] at hsecrets
    obtain ⟨rfl, rfl⟩ := hsecrets
    cases hretired
    exact ⟨t, he⟩
  | _ => cases hsecrets

section exec

variable {svc : Service} {w w' : World} {rounds : Nat → Round} {i : Nat} {β : Type} {o : Op β} {r : β}

/-- A rotation takes the expiry from the last reading. -/
theorem rotated_expiry {sub retired secret : String} {expiresAt : Time} (htold : (rounds i).Told w.clock)
    (hallows : svc.allows (rounds i) o) (he : .rotated sub retired expiresAt secret ∈ o.events i w.db r) :
    expiresAt ≤ w.clock + oldSecretTTL := by
  cases o with
  | post req =>
    cases r with
    | error err => simp [Op.events, postEvents] at he
    | ok resp =>
      simp only [Op.events, postEvents] at he
      split at he <;> simp at he
  | stmt s =>
    cases r with
    | error err => cases he
    | ok a =>
      cases s with
      | rotateSecret workspaceID id newSealed oldExpiresAt =>
        simp only [Op.events, Stmt.events] at he
        split at he
        · cases he
        obtain ⟨row, -, heq⟩ := List.mem_map.1 he
        cases heq
        obtain ⟨now, earlier, hreadings, rfl⟩ := hallows
        have hnow : now ≤ w.clock := (List.pairwise_cons.1 htold).1 now (hreadings ▸ .head _)
        exact add_le_add_left hnow _
      | setFirstFailure deliveryID =>
        simp only [Op.events, Stmt.events] at he
        split at he
        · cases he
        · split at he <;> simp at he
      | setSubscriptionActive cause workspaceID id active =>
        simp only [Op.events, Stmt.events] at he
        split at he
        · cases he
        · split at he <;> simp at he
      | _ => simp [Op.events, Stmt.events] at he
  | _ => cases he

theorem Rotations.rows_exec (h : Rotations svc w rounds) (hstep : Step i o w r w') (sub : String) (row : SubscriptionRow)
    (hrow : w'.db.subscription sub = some row) : ∃ secrets, secretsOf sub w'.history = some secrets ∧
      secrets.Stored row.secret row.oldSecret row.oldSecretExpiresAt := by
  have hchange := hstep.change sub
  have hrows := h.rows sub
  rw [hstep.history]
  generalize o.events i w.db r = events at hchange
  generalize w.db.subscription sub = before at hchange hrows
  generalize w'.db.subscription sub = after at hchange hrow
  -- the secrets are those of before where no event sets them
  have hkeep : ∀ row₀, before = some row₀ → (∀ e ∈ events, e.secrets sub = none) → row.secret = row₀.secret →
      row.oldSecret = row₀.oldSecret → row.oldSecretExpiresAt = row₀.oldSecretExpiresAt →
      ∃ secrets, secretsOf sub (w.record events).history = some secrets ∧
        secrets.Stored row.secret row.oldSecret row.oldSecretExpiresAt := by
    intro row₀ hbefore hevents hsecret hold hexpires
    rw [secretsOf_record hevents, hsecret, hold, hexpires]
    exact hrows row₀ hbefore
  cases hchange with
  | untouched hnone => exact hkeep row hrow (fun e he => Event.secrets_of_touches (hnone e he)) rfl rfl rfl
  | created hold hexpires hfailure =>
    cases hrow
    exact ⟨⟨row.secret, none⟩, by simp [secretsOf, World.record, Event.secrets], rfl, hold, hexpires⟩
  | deleted => cases hrow
  | @rotated row₀ newSealed oldExpiresAt =>
    cases hrow
    exact ⟨⟨newSealed, some (row₀.secret, oldExpiresAt)⟩, by simp [secretsOf, World.record, Event.secrets], rfl, rfl, rfl⟩
  | activated =>
    cases hrow
    exact hkeep _ rfl (fun e he => by cases List.mem_singleton.1 he; rfl) rfl rfl rfl
  | disabled =>
    cases hrow
    exact hkeep _ rfl (fun e he => by cases List.mem_singleton.1 he; rfl) rfl rfl rfl
  | failed hnone =>
    cases hrow
    exact hkeep _ rfl (fun e he => by cases List.mem_singleton.1 he; rfl) rfl rfl rfl
  | cleared =>
    obtain ⟨row₀, hbefore, rfl⟩ := Option.map_eq_some_iff.1 hrow
    exact hkeep row₀ hbefore (fun e he => by cases List.mem_singleton.1 he; rfl) rfl rfl rfl

theorem Rotations.hands_exec (h : Rotations svc w rounds) (hstep : Step i o w r w') (j : Nat) (d : PendingDelivery)
    (hd : d ∈ (Function.update rounds i ((rounds i).next o r) j).hand) :
    InHand j d w'.clock (Function.update rounds i ((rounds i).next o r) j).readings w'.history := by
  rw [hstep.clock, hstep.history]
  by_cases hj : j = i
  · subst hj
    rw [Function.update_self] at hd ⊢
    rcases hstep.hand hd with ⟨hd, hnone, hreadings⟩ | ⟨later, others, hevents, hlater, hreadings, row, hrow, hsecrets⟩
    · obtain ⟨c, before, secrets, hlast, hknown, hcarries, hclock, htold⟩ := h.hands j d hd
      refine ⟨c, before, secrets, hlast.record fun d' he => (hnone d' he).elim, hknown, hcarries, hclock, fun t ht => ?_⟩
      rcases hreadings t ht with ht | rfl
      · exact htold t ht
      · exact hclock
    · -- it has just been claimed, with what its subscription has
      obtain ⟨secrets, hknown, hcurrent, hold, hexpires⟩ := h.rows _ row hrow
      refine ⟨w.clock, others.map (fun d' => (w.clock, .claimed j d')) ++ w.history, secrets, ?_, ?_, ?_, le_refl _, ?_⟩
      · refine ⟨later.map fun d' => (w.clock, .claimed j d'), ?_, fun e he d' heq => ?_⟩
        · simp [World.record, hevents, Function.comp_def]
        · obtain ⟨d'', hd'', rfl⟩ := List.mem_map.1 he
          cases heq
          exact hlater d' hd''
      · have hclaims : ∀ e ∈ others.map (Event.claimed j), e.secrets d.subscriptionID = none := by
          intro e he
          obtain ⟨d', -, rfl⟩ := List.mem_map.1 he
          rfl
        rw [← hknown, ← secretsOf_record hclaims, World.record, List.map_map]
        rfl
      · exact ⟨hcurrent.trans hsecrets.1.symm, hsecrets.2.1.trans (by rw [hold]), hsecrets.2.2.trans hexpires⟩
      · rw [hreadings]
        exact fun t ht => (List.not_mem_nil ht).elim
  · rw [Function.update_of_ne hj] at hd ⊢
    obtain ⟨c, before, secrets, hlast, hrest⟩ := h.hands j d hd
    exact ⟨c, before, secrets, hlast.record fun d' he => (hj (Op.claimed_mem he)).elim, hrest⟩

/-- What a worker sends is signed. -/
theorem Rotations.post (h : Rotations svc w rounds)
    (hinj : ∀ key key' msg, svc.hmac key msg = svc.hmac key' msg → key = key') {req : Request}
    (hallows : svc.allows (rounds i) (.post req)) : svc.Signed w.clock i req w.history := by
  obtain ⟨d, rest, hhand, -, now, earlier, hreadings, looked, hlooked, hsigns⟩ := hallows
  obtain ⟨c, before, secrets, hlast, hknown, ⟨hcurrent, hold, hexpires⟩, hclock, htold⟩ :=
    h.hands i d (by rw [hhand]; exact .head _)
  have hsorted := h.told i
  rw [Round.Told, hreadings] at hsorted
  rw [hreadings] at hlooked
  obtain ⟨hall, hordered⟩ := List.pairwise_cons.1 hsorted
  have hlast' : looked ≤ now := by
    rcases List.mem_cons.1 hlooked with rfl | hlooked
    · exact le_refl _
    · exact (List.pairwise_cons.1 hordered).1 looked hlooked
  have hreq : req.deliveryID = d.deliveryID ∧ req.timestamp = now := by
    obtain ⟨secret, -, rfl⟩ := hsigns
    exact ⟨rfl, rfl⟩
  refine ⟨d, c, before, secrets, looked, hlast, hreq.1.symm, hknown, htold looked (hreadings ▸ hlooked),
    hreq.2 ▸ hlast', hreq.2 ▸ hall now (.head _), fun retired expiresAt hretired => ?_, fun key => ?_⟩
  · obtain ⟨rotatedAt, hrotated⟩ := secretsOf_retired hknown hretired
    obtain ⟨since, hhistory, -⟩ := hlast
    have hmem : (rotatedAt, .rotated d.subscriptionID retired expiresAt secrets.current) ∈ w.history := by
      rw [hhistory]
      exact List.mem_append_right _ (List.mem_cons_of_mem _ hrotated)
    exact ⟨rotatedAt, hrotated, h.expiries _ _ _ _ _ hmem⟩
  · rw [Service.verifies_iff hinj hsigns, hcurrent]
    refine or_congr_right (and_congr_right fun hkey => ?_)
    exact Service.oldPlainAt_iff hold hexpires hkey

theorem Rotations.exec (hinj : ∀ key key' msg, svc.hmac key msg = svc.hmac key' msg → key = key')
    (h : Rotations svc w rounds) (hallows : svc.allows (rounds i) o) (hstep : Step i o w r w') :
    Rotations svc w' (Function.update rounds i ((rounds i).next o r)) := by
  refine ⟨hstep.told_update h.told, h.rows_exec hstep, ?_, h.hands_exec hstep, ?_⟩
  · rw [hstep.history]
    intro rotatedAt sub retired expiresAt secret he
    rcases List.mem_append.1 he with he | he
    · obtain ⟨e, he, heq⟩ := List.mem_map.1 he
      cases heq
      exact rotated_expiry (h.told i) hallows he
    · exact h.expiries _ _ _ _ _ he
  · rw [hstep.history]
    cases o with
    | post req =>
      obtain ⟨answered, hquiet, hevents⟩ := @postEvents_split i w.db req r
      have hsent : svc.AllSigned (w.record [.posted i req]).history :=
        ⟨fun j req' heq => by cases heq; exact h.post hinj hallows, h.signed⟩
      have hanswered : ∀ e ∈ answered, ∀ t earlier j req', e = .posted j req' → svc.Signed t j req' earlier := by
        rintro e he t earlier j req' rfl
        have hnot := (hquiet _ he req'.deliveryID).2.2
        simp [Event.posts] at hnot
      have hall := Throughout.record hsent hanswered
      rw [Op.events, hevents, Service.AllSigned]
      simpa [World.record] using hall
    | stmt s =>
      cases r with
      | error err => exact h.signed
      | ok a =>
        refine Throughout.record h.signed ?_
        rintro e he t earlier j req rfl
        exact (Stmt.mem_events he).elim
    | _ => exact h.signed

/-- A worker that is cut off holds nothing more. -/
theorem Rotations.crash (h : Rotations svc w rounds) :
    Rotations svc (w.record [.crashed i]) (Function.update rounds i (rounds i).abandon) := by
  have hcrash : ∀ sub, ∀ e ∈ [Event.crashed i], e.secrets sub = none := fun sub e he => List.mem_singleton.1 he ▸ rfl
  refine ⟨?_, fun sub row hrow => ?_, ?_, fun j d hd => ?_, ?_⟩
  · exact Function.forall_update_iff rounds (fun _ γ => γ.Told w.clock) |>.2
      ⟨Round.told_empty rfl, fun j _ => h.told j⟩
  · rw [secretsOf_record (hcrash sub)]
    exact h.rows sub row hrow
  · intro rotatedAt sub retired expiresAt secret he
    rcases List.mem_cons.1 he with he | he
    · cases he
    · exact h.expiries _ _ _ _ _ he
  · by_cases hj : j = i
    · subst hj
      rw [Function.update_self] at hd
      cases hd
    · rw [Function.update_of_ne hj] at hd ⊢
      obtain ⟨c, before, secrets, hlast, hrest⟩ := h.hands j d hd
      exact ⟨c, before, secrets, hlast.record (fun d' he => by cases List.mem_singleton.1 he), hrest⟩
  · refine Throughout.record h.signed ?_
    rintro e he t earlier j req rfl
    cases List.mem_singleton.1 he

theorem Rotations.wait (h : Rotations svc w rounds) (henv : machine.env w w') : Rotations svc w' rounds := by
  obtain ⟨hdb, hhistory, hclock⟩ := henv
  refine ⟨fun i => (h.told i).later hclock, ?_, ?_, fun i d hd => ?_, ?_⟩
  · rw [hdb, hhistory]
    exact h.rows
  · rw [hhistory]
    exact h.expiries
  · obtain ⟨c, before, secrets, hlast, hknown, hcarries, hc, htold⟩ := h.hands i d hd
    exact ⟨c, before, secrets, hhistory ▸ hlast, hknown, hcarries, hc.trans hclock, htold⟩
  · rw [hhistory]
    exact h.signed

end exec

def emptyWorld : World where
  db := ⟨.empty, .empty⟩
  clock := 0
  history := []

/-- A session that runs a program of `n` calls, and an hour after it. -/
def served (m : Svc Unit) (n : Nat) : List (Turn Op World Unit) :=
  [.start 0 m, .calls 0 n, .finish 0, .env (World.wait hour)]

theorem served_legal {m : Svc Unit} (h : plainService.Program m) (n : Nat) :
    (served m n).Forall (Turn.Legal machine plainService.Program) :=
  ⟨h, trivial, trivial, World.wait_env (by decide)⟩

def created : List (Turn Op World Unit) :=
  served (plainService.createSubscription "workspace" "https://example.com" ["task.created"] >>= fun _ => return ()) 4

def rotated : List (Turn Op World Unit) :=
  served (Service.rotateSecret "workspace" "subscription" >>= fun _ => return ()) 4

def sent : List (Turn Op World Unit) :=
  served (plainService.emit "workspace" ⟨"event", "task.created", "payload"⟩ >>= fun _ => return ()) 1 ++
    [.start 0 (plainService.deliverPending 20), .calls 0 7]

theorem sent_legal : sent.Forall (Turn.Legal machine plainService.Program) :=
  List.forall_append.2 ⟨served_legal (.emit ..) 1, .deliverPending 20, trivial⟩

theorem plainService_inj (key key' msg : String) (h : plainService.hmac key msg = plainService.hmac key' msg) :
    key = key' := (String.append_left_inj _).1 ((String.append_left_inj _).1 h)

/-- What is sent has a signature with the replaced secret too. -/
def Event.signsOld : Event → Bool
  | .posted _ req => req.signatureOld ≠ none
  | _ => false

namespace Service

variable (svc : Service)

/-- The key was the current one at some moment after `start`, and not only after `stop`. -/
def WasCurrent (sub key : String) (start stop : Time) (h : History) : Prop :=
  ∃ later t e earlier secrets, h = later ++ (t, e) :: earlier ∧ e.secrets sub = some secrets ∧
    svc.unsealSecret secrets.current = .ok key ∧ t ≤ stop ∧
    ∀ t' e', (t', e') ∈ later → e'.secrets sub ≠ none → start < t'

/-- The key was a current one, and not after `start`. -/
def WasRetired (sub key : String) (start stop : Time) (h : History) : Prop :=
  (∃ t e secrets, (t, e) ∈ h ∧ e.secrets sub = some secrets ∧ svc.unsealSecret secrets.current = .ok key) ∧
    ¬ svc.WasCurrent sub key start stop h

/-- Every secret that was current in the last `oldSecretTTL` verifies what is sent, and none before it. -/
def Overlaps : History → Prop :=
  Throughout fun _ e earlier => ∀ i req c j d, e = .posted i req → (c, .claimed j d) ∈ earlier →
    d.deliveryID = req.deliveryID → ∀ key,
      (svc.WasCurrent d.subscriptionID key (req.timestamp - oldSecretTTL) req.timestamp earlier → svc.verifies key req) ∧
      (svc.WasRetired d.subscriptionID key (req.timestamp - oldSecretTTL) req.timestamp earlier → ¬ svc.verifies key req)

end Service

/-- What is sent last is not verified by a secret that two rotations have replaced in the last `oldSecretTTL`. -/
def forgets : History → Bool
  | [_, (_, .posted i req), (_, .claimed j d), (t₂, .rotated s₂ k₂ e₂ n₂), (t₁, .rotated s₁ k₁ e₁ n₁), (t, .created s k)] =>
    d.deliveryID = req.deliveryID ∧ s = d.subscriptionID ∧ t ≤ req.timestamp ∧
      req.timestamp - oldSecretTTL < t₁ ∧ req.timestamp - oldSecretTTL < t₂ ∧ ¬ plainService.verifies k req
  | _ => false

end Ploykit.Webhooks

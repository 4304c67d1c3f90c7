import Ploykit.Billing.Registration

/-!
# One product for a mapping

Between the lock and the end of its transaction a session knows that the mapping is
not there, and that it is the only one who may ask the channel for it. What the
session knows is kept by a monitor of its calls, and `Placed` says that it is so.
-/

namespace Ploykit.Billing.Registration

open Lib

variable {E R : Type}

/-! ## What a session knows -/

/-- How far a session has come in its transaction. -/
inductive Stage (R : Type) where
  | begun
  | locked (key : String)
  /-- The lock is held, and the mapping was not there afterwards. -/
  | clear (m : Mapping)
  | made (m : Mapping) (id : String)
  | written (p : ChannelProduct)
  | lapsed (m : Mapping) (e : R)

namespace Stage

/-- The key of the lock that is held. -/
def lockKey : Stage R → Option String
  | begun => none
  | locked key => some key
  | clear m => some (Registration.lockKey m)
  | made m _ => some (Registration.lockKey m)
  | written p => some (Registration.lockKey p.key)
  | lapsed m _ => some (Registration.lockKey m)

def write : Stage R → Option ChannelProduct
  | written p => some p
  | _ => none

/-- The registration that was made in the transaction. -/
def attempt : Stage R → Option (Mapping × Except R String)
  | made m id => some (m, .ok id)
  | written p => some (p.key, .ok p.channelProductID)
  | lapsed m e => some (m, .error e)
  | _ => none

/-- The mapping that is not there. -/
def unmapped : Stage R → Option Mapping
  | clear m => some m
  | made m _ => some m
  | written p => some p.key
  | _ => none

/-- A session that knows of a mapping or has registered it holds its lock. -/
theorem lockKey_of_attempt {s : Stage R} {m : Mapping} {r : Except R String} (h : s.attempt = some (m, r)) :
    s.lockKey = some (Registration.lockKey m) := by
  cases s with
  | begun => cases h
  | locked key => cases h
  | clear m => cases h
  | _ => cases h; rfl

theorem lockKey_of_unmapped {s : Stage R} {m : Mapping} (h : s.unmapped = some m) :
    s.lockKey = some (Registration.lockKey m) := by
  cases s with
  | begun => cases h
  | locked key => cases h
  | clear m => cases h; rfl
  | made m id => cases h; rfl
  | written p => cases h; rfl
  | lapsed m e => cases h

end Stage

/-- What a session has learned. -/
structure Progress (R : Type) where
  plan : Option (String × Option Plan) := none
  stage : Option (Stage R) := none
  seen : List (Mapping × String) := []
  failed : List (Mapping × R) := []

def Call.mapping (call : Call) : Option Mapping :=
  (parseCatalogInterval call.interval).map fun iv => (call.channel, call.planCode, iv)

/-- The gates before the channel is asked. -/
def Service.admits (svc : Service) (channel : String) (plan : Plan) (interval : BillingInterval) : Prop :=
  ∃ ch, svc.channels channel = some ch ∧ ch.registersProducts = true ∧
    channelCurrencyAllowed ch (planCurrency plan svc.currency) = true ∧ 0 < planAmountCents plan interval

/-- A failure of the database, as the caller gets it. -/
def Err.Store : Err E R → Prop
  | .store _ => True
  | .registerProductOn _ (.store _) => True
  | _ => False

/-- The session knows the result of the call to be right. -/
inductive Known (svc : Service) (γ : Progress R) (call : Call) : Except (Err E R) String → Prop
  | found {m : Mapping} {id : String} (hm : call.mapping = some m) (h : (m, id) ∈ γ.seen) : Known svc γ call (.ok id)
  | store {e : Err E R} (h : e.Store) : Known svc γ call (.error e)
  | failed {m : Mapping} {e : R} (hm : call.mapping = some m) (h : (m, e) ∈ γ.failed) :
      Known svc γ call (.error (.registerProductOn call.channel (.remote e)))
  | unregistrable {e : Webx.Error} (h : ∀ ch, svc.channels call.channel = some ch → ch.registersProducts = false) :
      Known svc γ call (.error (.web e))
  | interval {e : Webx.Error} (h : call.mapping = none) : Known svc γ call (.error (.web e))
  | planless {e : Webx.Error} (h : γ.plan = some (call.planCode, none)) : Known svc γ call (.error (.web e))
  | refused {e : Webx.Error} {plan : Plan} {iv : BillingInterval} (h : γ.plan = some (call.planCode, some plan))
      (hiv : parseCatalogInterval call.interval = some iv) (hno : ¬ svc.admits call.channel plan iv) :
      Known svc γ call (.error (.web e))

namespace Progress

variable (γ : Progress R)

/-- What is learned from a call and its answer. -/
def next : {β : Type} → Op E R β → β → Progress R
  | _, .getPlan planCode, .ok plan => { γ with plan := some (planCode, plan.map Subtype.val) }
  | _, .getChannelProduct m, .ok (some p) => { γ with seen := (m, p.channelProductID) :: γ.seen }
  | _, .begin, .ok () => { γ with stage := some .begun }
  | _, .advisoryXactLock key, .ok () => { γ with stage := some (.locked key) }
  | _, .selectChannelProductID m, .ok none => { γ with stage := some (.clear m) }
  | _, .selectChannelProductID m, .ok (some id) => { γ with seen := (m, id) :: γ.seen }
  | _, .upsertChannelProduct p, .ok () => { γ with stage := some (.written p) }
  | _, .commit, .ok () =>
    { γ with stage := none, seen := (γ.stage.bind Stage.write).toList.map (fun p => (p.key, p.channelProductID)) ++ γ.seen }
  | _, .commit, .error _ => { γ with stage := none }
  | _, .rollback, _ => { γ with stage := none }
  | _, .registerProduct channel plan interval, .ok id => { γ with stage := some (.made (channel, plan.code, interval) id) }
  | _, .registerProduct channel plan interval, .error e =>
    { γ with stage := some (.lapsed (channel, plan.code, interval) e), failed := ((channel, plan.code, interval), e) :: γ.failed }
  | _, _, _ => γ

/-- The call is in order. -/
def allows (svc : Service) : {β : Type} → Op E R β → Prop
  | _, .begin => γ.stage = none
  | _, .advisoryXactLock _ => γ.stage = some .begun
  | _, .selectChannelProductID m => γ.stage = some (.locked (lockKey m))
  | _, .registerProduct channel plan interval =>
    γ.stage = some (.clear (channel, plan.code, interval)) ∧ svc.admits channel plan interval ∧
      ∃ planCode, γ.plan = some (planCode, some plan)
  | _, .upsertChannelProduct p => γ.stage = some (.made p.key p.channelProductID)
  | _, .commit => ∃ p, γ.stage = some (.written p)
  | _, .respond call result => γ.stage = none ∧ Known svc γ call result
  | _, _ => True

end Progress

def monitor (svc : Service) : Monitor (Op E R) (Progress R) where
  allows γ o := γ.allows svc o
  next γ o r := γ.next o r
  rests γ := γ.stage = none
  init := {}
  abort γ := { γ with stage := none }
  init_rests := rfl
  abort_rests _ := rfl

section accepts

variable {svc : Service} {call : Call} {γ : Progress R}

/-- The result of a call, with no transaction left open. -/
def Vouched (svc : Service) (call : Call) (γ : Progress R) (result : Except (Err E R) String) : Prop :=
  γ.stage = none ∧ Known svc γ call result

theorem Vouched.store {e : Err E R} (h : γ.stage = none) (he : e.Store) : Vouched svc call γ (.error e) := ⟨h, .store he⟩

theorem obeys_atomic {plan : Plan} {planCode : String} {iv : BillingInterval} {cents : Int} {now : Time} (hstage : γ.stage = none)
    (hm : call.mapping = some (call.channel, planCode, iv)) (hplan : γ.plan = some (planCode, some plan)) (hcode : plan.code = planCode)
    (hadmits : svc.admits call.channel plan iv) :
    Proc.Obeys (monitor svc) (fun γ e => Vouched (E := E) svc call γ (.error (.registerProductOn call.channel e))) γ
      (registerChannelProductAtomic (call.channel, planCode, iv)
        (Proc.perform .remote (.registerProduct call.channel plan iv)) cents now)
      fun γ r => Vouched (E := E) svc call γ (.ok r.1) := by
  subst hcode
  unfold registerChannelProductAtomic
  refine Proc.obeys_bind (Proc.obeys_perform hstage (fun _ => ?_) fun e => .store hstage trivial)
  refine Proc.obeys_deferring ?_
  refine Proc.obeys_bind (Proc.obeys_perform rfl (fun _ => ?_) fun e => ⟨trivial, fun _ => .store rfl trivial⟩)
  refine Proc.obeys_bind (Proc.obeys_perform rfl (fun found => ?_) fun e => ⟨trivial, fun _ => .store rfl trivial⟩)
  cases found with
  | some existingID => exact Proc.obeys_pure ⟨trivial, fun _ => ⟨rfl, .found hm List.mem_cons_self⟩⟩
  | none =>
    refine Proc.obeys_bind (Proc.obeys_perform ⟨rfl, hadmits, _, hplan⟩ (fun id => ?_) fun e => ?_)
    · refine Proc.obeys_bind (Proc.obeys_perform rfl (fun _ => ?_) fun e => ⟨trivial, fun _ => .store rfl trivial⟩)
      refine Proc.obeys_bind (Proc.obeys_perform ⟨_, rfl⟩ (fun _ => ?_) fun e => ⟨trivial, fun _ => .store rfl trivial⟩)
      exact Proc.obeys_pure ⟨trivial, fun _ => ⟨rfl, .found hm List.mem_cons_self⟩⟩
    · exact ⟨trivial, fun _ => ⟨rfl, .failed hm List.mem_cons_self⟩⟩

theorem obeys_registerChannelProduct (hstage : γ.stage = none) :
    Proc.Obeys (monitor svc) (fun γ e => Vouched (E := E) svc call γ (.error e)) γ (registerChannelProduct svc call)
      fun γ id => Vouched (E := E) svc call γ (.ok id) := by
  unfold registerChannelProduct
  cases hiv : parseCatalogInterval call.interval with
  | none => exact Proc.obeys_throw ⟨hstage, .interval (by rw [Call.mapping, hiv]; rfl)⟩
  | some iv =>
  have hmapping : call.mapping = some (call.channel, call.planCode, iv) := by
    rw [Call.mapping, hiv]
    rfl
  cases hch : svc.channels call.channel with
  | none =>
    refine Proc.obeys_throw ⟨hstage, .unregistrable fun ch h => ?_⟩
    rw [hch] at h
    cases h
  | some ch =>
  refine Proc.obeys_ite (fun hno => ?_) fun hreg => ?_
  · refine Proc.obeys_throw ⟨hstage, .unregistrable fun ch' h => ?_⟩
    rw [hch] at h
    cases h
    exact Bool.not_eq_true _ ▸ hno
  have hreg : ch.registersProducts = true := of_not_not hreg
  refine Proc.obeys_bind (Proc.obeys_perform trivial (fun found => ?_) fun e => .store hstage trivial)
  cases found with
  | none => exact Proc.obeys_throw ⟨hstage, .planless rfl⟩
  | some found =>
  obtain ⟨plan, hcode⟩ := found
  -- what the gates refuse is not admitted
  have hrefused : ∀ {γ : Progress R}, γ.plan = some (call.planCode, some plan) → ¬ svc.admits call.channel plan iv →
      ∀ e : Webx.Error, Known svc γ call (.error (.web e) : Except (Err E R) String) :=
    fun hplan hno e => .refused hplan hiv hno
  refine Proc.obeys_ite (fun hno => ?_) fun hcurrency => ?_
  · refine Proc.obeys_throw ⟨hstage, hrefused rfl ?_ _⟩
    rintro ⟨ch', h, -, hcurrency, -⟩
    rw [hch] at h
    cases h
    exact hno hcurrency
  refine Proc.obeys_bind (Proc.obeys_perform trivial (fun found => ?_) fun e => .store hstage trivial)
  cases found with
  | some existing => exact Proc.obeys_pure ⟨hstage, .found hmapping List.mem_cons_self⟩
  | none =>
  refine Proc.obeys_ite (fun hno => ?_) fun hpriced => ?_
  · refine Proc.obeys_throw ⟨hstage, hrefused rfl ?_ _⟩
    rintro ⟨-, -, -, -, hpriced⟩
    omega
  have hadmits : svc.admits call.channel plan iv := ⟨ch, hch, hreg, of_not_not hcurrency, by omega⟩
  refine Proc.obeys_bind (Proc.obeys_wrapping (Proc.Obeys.mono (obeys_atomic hstage hmapping rfl hcode hadmits) ?_))
  exact fun γ r hr => Proc.obeys_pure hr

theorem accepts_requests {m : Script (Op E R) Unit} (hm : requests svc m) : (monitor svc).Accepts m := by
  obtain ⟨call, rfl⟩ := hm
  intro γ hγ
  refine Script.follows_bind (Script.Follows.mono (obeys_registerChannelProduct hγ) fun γ r hr => ?_)
  have hvouched : Vouched svc call γ r := by
    cases r with
    | ok id => exact hr
    | error e => exact hr
  exact ⟨hvouched, fun _ => hvouched.1⟩

end accepts

/-! ## What is so -/

namespace World

/-- The transaction of the attempt has ended without being committed. -/
def Dead (w : World E R) (a : Attempt R) : Prop := ¬ w.Committed a ∧ ∀ i t, w.tx i = some t → a.xid ≠ some t.xid

theorem setTx_cases {w : World E R} {i j : Nat} {t : Option Tx} {u : Tx} (h : (w.setTx i t).tx j = some u) :
    (j = i ∧ t = some u) ∨ (j ≠ i ∧ w.tx j = some u) := by
  by_cases hj : j = i
  · subst hj
    exact .inl ⟨rfl, by simpa [setTx] using h⟩
  · exact .inr ⟨hj, by simpa [setTx, Function.update_of_ne hj] using h⟩

theorem put_self (products : Mapping → Option ChannelProduct) (p : ChannelProduct) : put products p p.key = some p :=
  Function.update_self ..

theorem put_of_ne {products : Mapping → Option ChannelProduct} {p : ChannelProduct} {m : Mapping} (h : m ≠ p.key) :
    put products p m = products m := Function.update_of_ne h ..

end World

section placed

variable {hashtext : String → Int} {products : Mapping → Option ChannelProduct} {w w' : World E R}
  {stage : Nat → Option (Stage R)} {i j : Nat} {s : Stage R} {t u : Tx} {m : Mapping}

/-- The transaction of a session is at the stage. -/
structure Stage.At (hashtext : String → Int) (w : World E R) (s : Stage R) (t : Tx) : Prop where
  locks : t.locks = (s.lockKey.map hashtext).toList
  writes : t.writes = s.write.toList
  attempt : ∀ m r, s.attempt = some (m, r) ↔ ⟨some t.xid, m, r⟩ ∈ w.attempts
  unmapped : ∀ m, s.unmapped = some m → w.products m = none

theorem Stage.At.locked {key : String} (h : s.At hashtext w t) (hs : s.lockKey = some key) : hashtext key ∈ t.locks := by
  simp [h.locks, hs]

/-- A stage is kept while no other attempt is counted for it and no row appears under its lock. -/
theorem Stage.At.keep (h : s.At hashtext w t)
    (hattempts : ∀ m r, (⟨some t.xid, m, r⟩ : Attempt R) ∈ w'.attempts ↔ ⟨some t.xid, m, r⟩ ∈ w.attempts)
    (hproducts : ∀ m, hashtext (Registration.lockKey m) ∈ t.locks → w.products m = none → w'.products m = none) : s.At hashtext w' t where
  locks := h.locks
  writes := h.writes
  attempt m r := (h.attempt m r).trans (hattempts m r).symm
  unmapped m hm := hproducts m (h.locked (Stage.lockKey_of_unmapped hm)) (h.unmapped m hm)

/-- The sessions are at their stages. A lock has one holder, of the attempts for a mapping only
the latest may come to be committed, and the rows are those of committed attempts. -/
structure Placed (hashtext : String → Int) (products : Mapping → Option ChannelProduct) (w : World E R)
    (stage : Nat → Option (Stage R)) : Prop where
  idle : ∀ i, w.tx i = none ↔ stage i = none
  busy : ∀ i s t, stage i = some s → w.tx i = some t → s.At hashtext w t
  exclusive : ∀ i j t u, i ≠ j → w.tx i = some t → w.tx j = some u → ∀ k ∈ t.locks, k ∉ u.locks
  pending : ∀ i t, w.tx i = some t → t.xid < w.nextXid ∧ t.xid ∉ w.committed
  distinct : ∀ i j t u, i ≠ j → w.tx i = some t → w.tx j = some u → t.xid ≠ u.xid
  attempted : ∀ a ∈ w.attempts, ∃ x, a.xid = some x ∧ x < w.nextXid
  ended : ∀ x ∈ w.committed, x < w.nextXid
  order : w.attempts.Pairwise fun b a => b.mapping = a.mapping → w.Dead a
  stored : ∀ a ∈ w.attempts, w.Committed a → ∃ p, w.products a.mapping = some p ∧ a.result = .ok p.channelProductID
  origin : ∀ m p, w.products m = some p → products m = some p ∨
    ∃ a ∈ w.attempts, a.mapping = m ∧ w.Committed a ∧ a.result = .ok p.channelProductID

namespace Placed

theorem start (plans : List Plan) :
    Placed hashtext products ({ plans, products } : World E R) fun _ => none where
  idle _ := ⟨fun _ => rfl, fun _ => rfl⟩
  busy _ _ _ h := by cases h
  exclusive _ _ _ _ _ h := by cases h
  pending _ _ h := by cases h
  distinct _ _ _ _ _ h := by cases h
  attempted _ h := by cases h
  ended _ h := by cases h
  order := .nil
  stored _ h := by cases h
  origin _ _ h := .inl h

/-- A session goes on to another stage of the same transaction, ends it, or begins one. -/
theorem move (h : Placed hashtext products w stage) {t' : Option Tx} {s' : Option (Stage R)} {n : Nat} (hn : w.nextXid ≤ n)
    (hidle : t' = none ↔ s' = none) (hbusy : ∀ s t, s' = some s → t' = some t → s.At hashtext w t)
    (hfree : ∀ t j u, t' = some t → j ≠ i → w.tx j = some u → ∀ k ∈ t.locks, k ∉ u.locks)
    (hxid : ∀ t, t' = some t → (∃ u, w.tx i = some u ∧ u.xid = t.xid) ∨ w.nextXid = t.xid ∧ t.xid < n) :
    Placed hashtext products { w.setTx i t' with nextXid := n } (Function.update stage i s') := by
  have hcases : ∀ {j u}, ({ w.setTx i t' with nextXid := n } : World E R).tx j = some u →
      (j = i ∧ t' = some u) ∨ (j ≠ i ∧ w.tx j = some u) := fun hj => World.setTx_cases (w := w) hj
  have hapart : ∀ t j u, t' = some t → j ≠ i → w.tx j = some u → t.xid ≠ u.xid := by
    intro t j u ht hj hu
    rcases hxid t ht with ⟨u', hu', hsame⟩ | ⟨hnew, -⟩
    · exact hsame ▸ h.distinct i j u' u (Ne.symm hj) hu' hu
    · have hlt := (h.pending j u hu).1
      omega
  refine ⟨?_, ?_, ?_, ?_, ?_, ?_, ?_, ?_, h.stored, h.origin⟩
  · intro j
    by_cases hj : j = i
    · subst hj
      simpa [World.setTx] using hidle
    · simpa [World.setTx, Function.update_of_ne hj] using h.idle j
  · intro j s t hs ht
    rcases hcases ht with ⟨rfl, htx⟩ | ⟨hj, htx⟩
    · rw [Function.update_self] at hs
      exact (hbusy s t hs htx).keep (fun _ _ => .rfl) fun _ _ hm => hm
    · rw [Function.update_of_ne hj] at hs
      exact (h.busy j s t hs htx).keep (fun _ _ => .rfl) fun _ _ hm => hm
  · intro j k t u hjk ht hu
    rcases hcases ht with ⟨rfl, htx⟩ | ⟨hj, htx⟩
    · rcases hcases hu with ⟨rfl, hux⟩ | ⟨hk, hux⟩
      · exact absurd rfl hjk
      · exact hfree t k u htx hk hux
    · rcases hcases hu with ⟨rfl, hux⟩ | ⟨hk, hux⟩
      · exact fun key hkey hkey' => hfree u j t hux hj htx key hkey' hkey
      · exact h.exclusive j k t u hjk htx hux
  · intro j t ht
    rcases hcases ht with ⟨rfl, htx⟩ | ⟨hj, htx⟩
    · rcases hxid t htx with ⟨u, hu, hsame⟩ | ⟨hnew, hlt⟩
      · have hpending := h.pending j u hu
        exact ⟨hsame ▸ hpending.1.trans_le hn, hsame ▸ hpending.2⟩
      · exact ⟨hlt, fun hmem => absurd (h.ended _ hmem) (by omega)⟩
    · exact ⟨(h.pending j t htx).1.trans_le hn, (h.pending j t htx).2⟩
  · intro j k t u hjk ht hu
    rcases hcases ht with ⟨rfl, htx⟩ | ⟨hj, htx⟩
    · rcases hcases hu with ⟨rfl, hux⟩ | ⟨hk, hux⟩
      · exact absurd rfl hjk
      · exact hapart t k u htx hk hux
    · rcases hcases hu with ⟨rfl, hux⟩ | ⟨hk, hux⟩
      · exact Ne.symm (hapart u j t hux hj htx)
      · exact h.distinct j k t u hjk htx hux
  · intro a ha
    obtain ⟨x, hx, hlt⟩ := h.attempted a ha
    exact ⟨x, hx, hlt.trans_le hn⟩
  · exact fun x hx => (h.ended x hx).trans_le hn
  · refine List.Pairwise.imp_of_mem (fun {b a} hb ha hdead hba => ?_) h.order
    obtain ⟨hcommitted, hopen⟩ := hdead hba
    refine ⟨hcommitted, fun j t ht => ?_⟩
    rcases hcases ht with ⟨rfl, htx⟩ | ⟨hj, htx⟩
    · rcases hxid t htx with ⟨u, hu, hsame⟩ | ⟨hnew, -⟩
      · exact hsame ▸ hopen j u hu
      · obtain ⟨x, hx, hlt⟩ := h.attempted a ha
        intro heq
        rw [hx] at heq
        have := Option.some.inj heq
        omega
    · exact hopen j t htx

/-- Nobody else may have asked for a mapping that is not there under its lock. -/
theorem dead_of_clear (h : Placed hashtext products w stage) (hs : stage i = some (.clear m)) (ht : w.tx i = some t)
    {a : Attempt R} (ha : a ∈ w.attempts) (hm : a.mapping = m) : w.Dead a := by
  have hat := h.busy i _ t hs ht
  refine ⟨fun hcommitted => ?_, fun j u hu hxid => ?_⟩
  · obtain ⟨p, hp, -⟩ := h.stored a ha hcommitted
    rw [hm, hat.unmapped m rfl] at hp
    cases hp
  · have hstage : ∃ s, stage j = some s := by
      refine Option.ne_none_iff_exists'.1 fun hnone => ?_
      rw [(h.idle j).2 hnone] at hu
      cases hu
    obtain ⟨s, hstage⟩ := hstage
    have hu' := h.busy j s u hstage hu
    have hasked : s.attempt = some (m, a.result) := (hu'.attempt m a.result).2 (by rwa [← hxid, ← hm])
    by_cases hj : j = i
    · subst hj
      rw [hs] at hstage
      cases hstage
      cases hasked
    · exact h.exclusive j i u t hj hu ht _ (hu'.locked (Stage.lockKey_of_attempt hasked)) (hat.locked rfl)

/-- The channel is asked for a mapping that is not there. -/
theorem ask (h : Placed hashtext products w stage) (hs : stage i = some (.clear m)) (ht : w.tx i = some t) {r : Except R String}
    (hlock : s.lockKey = some (lockKey m)) (hwrite : s.write = none) (hattempt : s.attempt = some (m, r))
    (hunmapped : ∀ m', s.unmapped = some m' → m' = m) :
    Placed hashtext products { w with attempts := ⟨some t.xid, m, r⟩ :: w.attempts } (Function.update stage i (some s)) := by
  have hat := h.busy i _ t hs ht
  refine ⟨?_, ?_, h.exclusive, h.pending, h.distinct, ?_, h.ended, ?_, ?_, ?_⟩
  · intro j
    by_cases hj : j = i
    · subst hj
      simp [ht]
    · simpa [Function.update_of_ne hj] using h.idle j
  · intro j s' u hs' hu
    by_cases hj : j = i
    · subst hj
      rw [Function.update_self] at hs'
      cases hs'
      have htu : t = u := Option.some.inj (ht.symm.trans hu)
      subst htu
      refine ⟨by rw [hat.locks, hlock]; rfl, by rw [hat.writes, hwrite]; rfl, fun m' r' => ?_, fun m' hm' => ?_⟩
      · have hnone := (hat.attempt m' r').2
        simp only [hattempt, List.mem_cons]
        constructor
        · rintro ⟨⟩
          exact .inl rfl
        · rintro (heq | hmem)
          · cases heq
            rfl
          · cases hnone hmem
      · rw [hunmapped m' hm']
        exact hat.unmapped m rfl
    · rw [Function.update_of_ne hj] at hs'
      refine (h.busy j s' u hs' hu).keep (fun m' r' => ?_) fun _ _ hm => hm
      have hne : u.xid ≠ t.xid := h.distinct j i u t hj hu ht
      simp [hne]
  · intro a ha
    rcases List.mem_cons.1 ha with rfl | ha
    · exact ⟨t.xid, rfl, (h.pending i t ht).1⟩
    · exact h.attempted a ha
  · refine List.pairwise_cons.2 ⟨fun a ha hm => ?_, h.order⟩
    exact h.dead_of_clear hs ht ha hm.symm
  · intro a ha hcommitted
    rcases List.mem_cons.1 ha with rfl | ha
    · obtain ⟨x, hx, hxid⟩ := hcommitted
      cases hxid
      exact absurd hx (h.pending i t ht).2
    · exact h.stored a ha hcommitted
  · intro m' p hp
    rcases h.origin m' p hp with hold | ⟨a, ha, hrest⟩
    · exact .inl hold
    · exact .inr ⟨a, List.mem_cons_of_mem _ ha, hrest⟩

/-- The row that a session at `written` commits, and its transaction. -/
theorem written_tx (h : Placed hashtext products w stage) {p : ChannelProduct} (hs : stage i = some (.written p)) (ht : w.tx i = some t) :
    t.writes = [p] ∧ w.view t = World.put w.products p ∧ w.products p.key = none ∧
      (⟨some t.xid, p.key, .ok p.channelProductID⟩ : Attempt R) ∈ w.attempts := by
  have hat := h.busy i _ t hs ht
  have hwrites : t.writes = [p] := hat.writes
  exact ⟨hwrites, by rw [World.view, hwrites]; rfl, hat.unmapped p.key rfl, (hat.attempt _ _).1 rfl⟩

/-- A row that is there stays as it is. -/
theorem kept_row (h : Placed hashtext products w stage) {p q : ChannelProduct} (hs : stage i = some (.written p)) (ht : w.tx i = some t)
    (hm : w.products m = some q) : (w.applied i t).products m = some q := by
  obtain ⟨-, hview, hnone, -⟩ := h.written_tx hs ht
  have hne : m ≠ p.key := fun heq => by
    rw [heq, hnone] at hm
    cases hm
  show w.view t m = some q
  rw [hview, World.put_of_ne hne, hm]

theorem commit (h : Placed hashtext products w stage) {p : ChannelProduct} (hs : stage i = some (.written p)) (ht : w.tx i = some t) :
    Placed hashtext products (w.applied i t) (Function.update stage i none) := by
  have hat := h.busy i _ t hs ht
  obtain ⟨-, hview, hnone, hmade⟩ := h.written_tx hs ht
  have hcases : ∀ {j u}, (w.applied i t).tx j = some u → j ≠ i ∧ w.tx j = some u := by
    intro j u hu
    rcases World.setTx_cases (w := w) hu with ⟨-, hu⟩ | hother
    · cases hu
    · exact hother
  have hcommitted : ∀ a : Attempt R, (w.applied i t).Committed a ↔ a.xid = some t.xid ∨ w.Committed a := by
    intro a
    simp [World.Committed, World.applied]
  refine ⟨?_, ?_, ?_, ?_, ?_, h.attempted, ?_, ?_, ?_, ?_⟩
  · intro j
    by_cases hj : j = i
    · subst hj
      simp [World.applied, World.setTx]
    · simpa [World.applied, World.setTx, Function.update_of_ne hj] using h.idle j
  · intro j s u hs' hu
    obtain ⟨hj, hu⟩ := hcases hu
    rw [Function.update_of_ne hj] at hs'
    refine (h.busy j s u hs' hu).keep (fun _ _ => .rfl) fun m hlocked hm => ?_
    -- the other session holds another lock, so this is not the row that is written
    have hne : m ≠ p.key := fun heq => h.exclusive j i u t hj hu ht _ hlocked (heq ▸ hat.locked rfl)
    show w.view t m = none
    rw [hview, World.put_of_ne hne, hm]
  · intro j k u v hjk hu hv
    exact h.exclusive j k u v hjk (hcases hu).2 (hcases hv).2
  · intro j u hu
    obtain ⟨hj, hu⟩ := hcases hu
    refine ⟨(h.pending j u hu).1, fun hmem => ?_⟩
    rcases List.mem_cons.1 hmem with heq | hmem
    · exact h.distinct j i u t hj hu ht heq
    · exact (h.pending j u hu).2 hmem
  · intro j k u v hjk hu hv
    exact h.distinct j k u v hjk (hcases hu).2 (hcases hv).2
  · intro x hx
    rcases List.mem_cons.1 hx with rfl | hx
    · exact (h.pending i t ht).1
    · exact h.ended x hx
  · refine h.order.imp fun {b a} hdead hba => ?_
    obtain ⟨hnot, hopen⟩ := hdead hba
    refine ⟨fun hc => ?_, fun j u hu => hopen j u (hcases hu).2⟩
    rcases (hcommitted a).1 hc with hxid | hc
    · exact hopen i t ht hxid
    · exact hnot hc
  · intro a ha hc
    rcases (hcommitted a).1 hc with hxid | hc
    · have hwritten := (hat.attempt a.mapping a.result).2 (by rwa [← hxid])
      have hkey : p.key = a.mapping := congrArg Prod.fst (Option.some.inj hwritten)
      have hresult : .ok p.channelProductID = a.result := congrArg Prod.snd (Option.some.inj hwritten)
      refine ⟨p, ?_, hresult.symm⟩
      show w.view t a.mapping = some p
      rw [hview, ← hkey, World.put_self]
    · obtain ⟨q, hq, hresult⟩ := h.stored a ha hc
      exact ⟨q, h.kept_row hs ht hq, hresult⟩
  · intro m q hq
    by_cases hm : m = p.key
    · have hqp : q = p := by
        have hput : w.view t m = some q := hq
        rw [hview, hm, World.put_self] at hput
        exact (Option.some.inj hput).symm
      subst hqp
      exact .inr ⟨_, hmade, hm.symm, (hcommitted _).2 (.inl rfl), rfl⟩
    · have hold : w.products m = some q := by
        have hput : w.view t m = some q := hq
        rwa [hview, World.put_of_ne hm] at hput
      rcases h.origin m q hold with hstart | ⟨a, ha, ham, hc, hresult⟩
      · exact .inl hstart
      · exact .inr ⟨a, ha, ham, (hcommitted a).2 (.inr hc), hresult⟩

end Placed

end placed

section learned

variable {svc : Service} {w w' : World E R} {γ γ' : Progress R} {γs : Nat → Progress R} {call : Call}

/-- The mapping is one that the gates let through. -/
def Registrable (svc : Service) (w : World E R) (m : Mapping) : Prop :=
  ∃ plan, w.getPlan m.2.1 = some plan ∧ svc.admits m.1 plan.val m.2.2

/-- What a session has learned is so. -/
structure Progress.True (w : World E R) (γ : Progress R) : Prop where
  seen : ∀ m id, (m, id) ∈ γ.seen → ∃ p, w.products m = some p ∧ p.channelProductID = id
  failed : ∀ m e, (m, e) ∈ γ.failed → ∃ a ∈ w.attempts, a.mapping = m ∧ a.result = .error e
  plan : ∀ planCode plan, γ.plan = some (planCode, plan) → plan = (w.getPlan planCode).map Subtype.val

/-- The result of a call, by what is in the tables and what the channel has answered. -/
inductive Right (svc : Service) (w : World E R) (call : Call) : Except (Err E R) String → Prop
  | found {m : Mapping} {p : ChannelProduct} (hm : call.mapping = some m) (hp : w.products m = some p) :
      Right svc w call (.ok p.channelProductID)
  | store {e : Err E R} (h : e.Store) : Right svc w call (.error e)
  | failed {m : Mapping} {a : Attempt R} {e : R} (hm : call.mapping = some m) (ha : a ∈ w.attempts) (ham : a.mapping = m)
      (hr : a.result = .error e) : Right svc w call (.error (.registerProductOn call.channel (.remote e)))
  | refused {e : Webx.Error} (h : ∀ m, call.mapping = some m → ¬ Registrable svc w m) : Right svc w call (.error (.web e))

structure Learned (svc : Service) (w : World E R) (γs : Nat → Progress R) : Prop where
  sessions : ∀ i, (γs i).True w
  asked : ∀ a ∈ w.attempts, Registrable svc w a.mapping
  returned : ∀ c ∈ w.returned, Right svc w c.1 c.2

/-- What a session knows to be right is right. -/
theorem Known.right {result : Except (Err E R) String} (h : Known svc γ call result) (hγ : γ.True w) : Right svc w call result := by
  cases h with
  | found hm h =>
    obtain ⟨p, hp, rfl⟩ := hγ.seen _ _ h
    exact .found hm hp
  | store h => exact .store h
  | failed hm h =>
    obtain ⟨a, ha, ham, hr⟩ := hγ.failed _ _ h
    exact .failed hm ha ham hr
  | interval h =>
    refine .refused fun m hm => ?_
    rw [h] at hm
    cases hm
  | unregistrable h =>
    refine .refused fun m hm hreg => ?_
    obtain ⟨plan, -, ch, hch, hreg, -⟩ := hreg
    obtain ⟨iv, -, rfl⟩ := Option.map_eq_some_iff.1 hm
    rw [h ch hch] at hreg
    cases hreg
  | planless h =>
    refine .refused fun m hm hreg => ?_
    obtain ⟨plan, hplan, -⟩ := hreg
    obtain ⟨iv, -, rfl⟩ := Option.map_eq_some_iff.1 hm
    have hnone := hγ.plan _ _ h
    rw [hplan] at hnone
    cases hnone
  | @refused e plan iv h hiv hno =>
    refine .refused fun m hm hreg => ?_
    obtain ⟨plan', hplan, hadmits⟩ := hreg
    rw [Call.mapping, hiv] at hm
    cases hm
    have hsome := hγ.plan _ _ h
    rw [hplan] at hsome
    cases hsome
    exact hno hadmits

/-- Rows and attempts are only added. -/
structure World.Grows (w w' : World E R) : Prop where
  plans : w'.plans = w.plans
  products : ∀ m p, w.products m = some p → w'.products m = some p
  attempts : ∀ a ∈ w.attempts, a ∈ w'.attempts

theorem World.Grows.getPlan (h : w.Grows w') (planCode : String) : w'.getPlan planCode = w.getPlan planCode := by
  rw [World.getPlan, World.getPlan, h.plans]

theorem Registrable.grow {m : Mapping} (hw : w.Grows w') : Registrable svc w' m ↔ Registrable svc w m := by
  simp only [Registrable, hw.getPlan]

theorem Progress.True.grow (h : γ.True w) (hw : w.Grows w') : γ.True w' where
  seen m id hid := by
    obtain ⟨p, hp, hpid⟩ := h.seen m id hid
    exact ⟨p, hw.products m p hp, hpid⟩
  failed m e he := by
    obtain ⟨a, ha, hrest⟩ := h.failed m e he
    exact ⟨a, hw.attempts a ha, hrest⟩
  plan planCode plan hplan := by rw [h.plan planCode plan hplan, hw.getPlan]

theorem Right.grow {result : Except (Err E R) String} (h : Right svc w call result) (hw : w.Grows w') : Right svc w' call result := by
  cases h with
  | found hm hp => exact .found hm (hw.products _ _ hp)
  | store h => exact .store h
  | failed hm ha ham hr => exact .failed hm (hw.attempts _ ha) ham hr
  | refused h => exact .refused fun m hm hreg => h m hm ((Registrable.grow hw).1 hreg)

/-- A session learns something, the tables grow, and somebody may be answered. -/
theorem Learned.grow (h : Learned svc w γs) (hw : w.Grows w') (i : Nat) (hγ : γ'.True w')
    (hasked : ∀ a ∈ w'.attempts, a ∈ w.attempts ∨ Registrable svc w a.mapping)
    (hreturned : ∀ c ∈ w'.returned, c ∈ w.returned ∨ Right svc w' c.1 c.2) : Learned svc w' (Function.update γs i γ') where
  sessions j := by
    by_cases hj : j = i
    · subst hj
      simpa using hγ
    · simpa [Function.update_of_ne hj] using (h.sessions j).grow hw
  asked a ha := by
    rcases hasked a ha with hold | hnew
    · exact (Registrable.grow hw).2 (h.asked a hold)
    · exact (Registrable.grow hw).2 hnew
  returned c hc := by
    rcases hreturned c hc with hold | hnew
    · exact (h.returned c hold).grow hw
    · exact hnew

/-- The tables stay as they are. -/
theorem Learned.learn (h : Learned svc w γs) (i : Nat) (hγ : γ'.True w) : Learned svc w (Function.update γs i γ') :=
  h.grow ⟨rfl, fun _ _ hp => hp, fun _ ha => ha⟩ i hγ (fun _ => .inl) fun _ => .inl

theorem Learned.setTx (h : Learned svc w γs) (i : Nat) (t : Option Tx) (n : Nat) (hγ : γ'.True w) :
    Learned svc { w.setTx i t with nextXid := n } (Function.update γs i γ') :=
  have hgrow : w.Grows { w.setTx i t with nextXid := n } := ⟨rfl, fun _ _ hp => hp, fun _ ha => ha⟩
  h.grow hgrow i (hγ.grow hgrow) (fun _ => .inl) fun _ => .inl

end learned

/-! ## Steps -/

section steps

variable {svc : Service} {hashtext : String → Int} {products : Mapping → Option ChannelProduct} {w w' : World E R}
  {γ' : Progress R} {γs : Nat → Progress R} {i : Nat} {t : Tx} {s : Stage R} {m : Mapping}

structure Sound (svc : Service) (hashtext : String → Int) (products : Mapping → Option ChannelProduct)
    (x : World E R × (Nat → Progress R)) : Prop where
  placed : Placed hashtext products x.1 fun i => (x.2 i).stage
  learned : Learned svc x.1 x.2

theorem stage_update : (fun j => (Function.update γs i γ' j).stage) = Function.update (fun j => (γs j).stage) i γ'.stage := by
  funext j
  by_cases hj : j = i
  · subst hj
    simp
  · simp [Function.update_of_ne hj]

theorem World.setTx_self (h : w.tx i = some t) : w.setTx i (some t) = w := by
  rw [World.setTx, ← h, Function.update_eq_self]

namespace Sound

theorem update (hp : Placed hashtext products w' (Function.update (fun j => (γs j).stage) i γ'.stage))
    (hl : Learned svc w' (Function.update γs i γ')) : Sound svc hashtext products (w', Function.update γs i γ') where
  placed := by rwa [stage_update]
  learned := hl

/-- The session only learns something. -/
theorem learn (h : Sound svc hashtext products (w, γs)) (hstage : γ'.stage = (γs i).stage) (hγ : γ'.True w) :
    Sound svc hashtext products (w, Function.update γs i γ') := by
  refine update ?_ (h.learned.learn i hγ)
  rw [hstage, Function.update_eq_self]
  exact h.placed

theorem stay (h : Sound svc hashtext products (w, γs)) : Sound svc hashtext products (w, Function.update γs i (γs i)) :=
  h.learn rfl (h.learned.sessions i)

/-- A session at a stage has a transaction. -/
theorem tx (h : Sound svc hashtext products (w, γs)) (hs : (γs i).stage = some s) : ∃ t, w.tx i = some t ∧ s.At hashtext w t := by
  obtain ⟨t, ht⟩ : ∃ t, w.tx i = some t := by
    refine Option.ne_none_iff_exists'.1 fun hnone => ?_
    rw [(h.placed.idle i).1 hnone] at hs
    cases hs
  exact ⟨t, ht, h.placed.busy i s t hs ht⟩

/-- The transaction of a session ends and nothing is stored. -/
theorem close (h : Sound svc hashtext products (w, γs)) (hstage : γ'.stage = none) (hγ : γ'.True w) :
    Sound svc hashtext products (w.setTx i none, Function.update γs i γ') := by
  refine update ?_ (h.learned.setTx i none w.nextXid hγ)
  rw [hstage]
  exact h.placed.move le_rfl (by simp) (fun _ _ h => by cases h) (fun _ _ _ h => by cases h) fun _ h => by cases h

/-- The session goes on in its transaction. -/
theorem go (h : Sound svc hashtext products (w, γs)) {t' : Tx} (ht : w.tx i = some t) (hxid : t'.xid = t.xid)
    (hlocks : ∀ j u, j ≠ i → w.tx j = some u → ∀ k ∈ t'.locks, k ∉ u.locks) (hstage : γ'.stage = some s) (hat : s.At hashtext w t')
    (hγ : γ'.True w) : Sound svc hashtext products (w.setTx i (some t'), Function.update γs i γ') := by
  refine update ?_ (h.learned.setTx i (some t') w.nextXid hγ)
  rw [hstage]
  refine h.placed.move le_rfl (by simp) ?_ ?_ ?_
  · rintro s' u ⟨⟩ ⟨⟩
    exact hat
  · rintro u j v ⟨⟩ hj hv
    exact hlocks j v hj hv
  · rintro u ⟨⟩
    exact .inl ⟨t, ht, hxid.symm⟩

theorem begin (h : Sound svc hashtext products (w, γs)) (hstage : γ'.stage = some .begun) (hγ : γ'.True w) :
    Sound svc hashtext products
      ({ w.setTx i (some ⟨w.nextXid, [], []⟩) with nextXid := w.nextXid + 1 }, Function.update γs i γ') := by
  refine update ?_ (h.learned.setTx i _ _ hγ)
  rw [hstage]
  refine h.placed.move (Nat.le_succ _) (by simp) ?_ ?_ ?_
  · rintro s' u ⟨⟩ ⟨⟩
    refine ⟨rfl, rfl, fun m r => ⟨fun hm => (by cases hm), fun hmem => ?_⟩, fun m hm => by cases hm⟩
    obtain ⟨x, hx, hlt⟩ := h.placed.attempted _ hmem
    cases hx
    exact absurd hlt (lt_irrefl w.nextXid)
  · rintro u j v ⟨⟩ - - k hk
    cases hk
  · rintro u ⟨⟩
    exact .inr ⟨rfl, Nat.lt_succ_self _⟩

theorem lock (h : Sound svc hashtext products (w, γs)) {key : String} (hs : (γs i).stage = some .begun) (ht : w.tx i = some t)
    (hfree : ∀ j u, j ≠ i → w.tx j = some u → hashtext key ∉ u.locks) :
    Sound svc hashtext products (w.setTx i (some { t with locks := hashtext key :: t.locks }),
      Function.update γs i { γs i with stage := some (.locked key) }) := by
  obtain ⟨u, hu, hat⟩ := h.tx hs
  obtain rfl : u = t := Option.some.inj (hu.symm.trans ht)
  have hnone : u.locks = [] := hat.locks
  have hlocks : hashtext key :: u.locks = [hashtext key] := by rw [hnone]
  refine h.go ht rfl (fun j v hj hv k hk => ?_) rfl ?_ ⟨(h.learned.sessions i).seen, (h.learned.sessions i).failed,
    (h.learned.sessions i).plan⟩
  · rw [hlocks, List.mem_singleton] at hk
    exact hk ▸ hfree j v hj hv
  · exact ⟨hlocks, hat.writes, hat.attempt, fun m hm => by cases hm⟩

/-- The mapping is read under its lock. -/
theorem select (h : Sound svc hashtext products (w, γs)) (hs : (γs i).stage = some (.locked (lockKey m))) (ht : w.tx i = some t) :
    Sound svc hashtext products (w, Function.update γs i
      ((γs i).next (.selectChannelProductID m : Op E R _) (.ok ((w.view t m).map (·.channelProductID))))) := by
  obtain ⟨u, hu, hat⟩ := h.tx hs
  obtain rfl : u = t := Option.some.inj (hu.symm.trans ht)
  have hwrites : u.writes = [] := hat.writes
  have hview : w.view u = w.products := by rw [World.view, hwrites]; rfl
  have hγ := h.learned.sessions i
  rw [hview]
  cases hm : w.products m with
  | none =>
    have hstage : ({ γs i with stage := some (.clear m) } : Progress R).stage = some (.clear m) := rfl
    have hgo := h.go ht rfl (fun j v hj hv => h.placed.exclusive i j u v (Ne.symm hj) ht hv) hstage
      ⟨hat.locks, hat.writes, hat.attempt, fun m' hm' => by cases hm'; exact hm⟩ ⟨hγ.seen, hγ.failed, hγ.plan⟩
    rwa [World.setTx_self ht] at hgo
  | some p =>
    refine h.learn rfl ⟨fun m' id hid => ?_, hγ.failed, hγ.plan⟩
    rcases List.mem_cons.1 hid with heq | hid
    · cases heq
      exact ⟨p, hm, rfl⟩
    · exact hγ.seen m' id hid

theorem upsert (h : Sound svc hashtext products (w, γs)) {p : ChannelProduct} (hs : (γs i).stage = some (.made p.key p.channelProductID))
    (ht : w.tx i = some t) : Sound svc hashtext products (w.setTx i (some { t with writes := t.writes ++ [p] }),
      Function.update γs i { γs i with stage := some (.written p) }) := by
  obtain ⟨u, hu, hat⟩ := h.tx hs
  obtain rfl : u = t := Option.some.inj (hu.symm.trans ht)
  have hnone : u.writes = [] := hat.writes
  have hwrites : u.writes ++ [p] = [p] := by rw [hnone]; rfl
  refine h.go ht rfl (fun j v hj hv => h.placed.exclusive i j u v (Ne.symm hj) ht hv) rfl ?_ ⟨(h.learned.sessions i).seen,
    (h.learned.sessions i).failed, (h.learned.sessions i).plan⟩
  exact ⟨hat.locks, hwrites, hat.attempt, fun m hm => by cases hm; exact hat.unmapped _ rfl⟩

/-- The channel is asked under the lock. -/
theorem register (h : Sound svc hashtext products (w, γs)) {channel : String} {plan : Plan} {iv : BillingInterval}
    (hs : (γs i).stage = some (.clear (channel, plan.code, iv))) (hadmits : svc.admits channel plan iv)
    (hplan : ∃ planCode, (γs i).plan = some (planCode, some plan)) (r : Except R String) :
    Sound svc hashtext products
      ({ w with attempts := ⟨(w.tx i).map (·.xid), (channel, plan.code, iv), r⟩ :: w.attempts },
        Function.update γs i ((γs i).next (.registerProduct channel plan iv : Op E R _) r)) := by
  obtain ⟨t, ht, hat⟩ := h.tx hs
  have hγ := h.learned.sessions i
  have hreg : Registrable svc w (channel, plan.code, iv) := by
    obtain ⟨planCode, hplan⟩ := hplan
    obtain ⟨found, hfound, hval⟩ := Option.map_eq_some_iff.1 (hγ.plan _ _ hplan).symm
    obtain ⟨plan', hcode⟩ := found
    obtain rfl : plan' = plan := hval
    subst hcode
    exact ⟨_, hfound, hadmits⟩
  let w' : World E R := { w with attempts := ⟨some t.xid, (channel, plan.code, iv), r⟩ :: w.attempts }
  have hgrow : w.Grows w' := ⟨rfl, fun _ _ hp => hp, fun a ha => List.mem_cons_of_mem _ ha⟩
  have hasked : ∀ a ∈ w'.attempts, a ∈ w.attempts ∨ Registrable svc w a.mapping := by
    intro a ha
    rcases List.mem_cons.1 ha with rfl | ha
    · exact .inr hreg
    · exact .inl ha
  rw [ht]
  cases r with
  | ok id =>
    exact update (h.placed.ask hs ht rfl rfl rfl fun m' hm' => by cases hm'; rfl)
      (h.learned.grow hgrow i ⟨(hγ.grow hgrow).seen, (hγ.grow hgrow).failed, (hγ.grow hgrow).plan⟩ hasked fun _ => .inl)
  | error e =>
    refine update (h.placed.ask hs ht rfl rfl rfl fun m' hm' => by cases hm')
      (h.learned.grow hgrow i ⟨(hγ.grow hgrow).seen, fun m e' he => ?_, (hγ.grow hgrow).plan⟩ hasked fun _ => .inl)
    rcases List.mem_cons.1 he with heq | he
    · cases heq
      exact ⟨_, List.mem_cons_self, rfl, rfl⟩
    · exact (hγ.grow hgrow).failed m e' he

theorem commit (h : Sound svc hashtext products (w, γs)) {p : ChannelProduct} (hs : (γs i).stage = some (.written p))
    (ht : w.tx i = some t) (r : Except E Unit) :
    Sound svc hashtext products (w.applied i t, Function.update γs i ((γs i).next (.commit : Op E R _) r)) := by
  have hgrow : w.Grows (w.applied i t) := ⟨rfl, fun m q hq => h.placed.kept_row hs ht hq, fun _ ha => ha⟩
  have hγ := (h.learned.sessions i).grow hgrow
  cases r with
  | error e =>
    exact update (h.placed.commit hs ht)
      (h.learned.grow hgrow i ⟨hγ.seen, hγ.failed, hγ.plan⟩ (fun _ => .inl) fun _ => .inl)
  | ok _ =>
    refine update (h.placed.commit hs ht)
      (h.learned.grow hgrow i ⟨fun m id hid => ?_, hγ.failed, hγ.plan⟩ (fun _ => .inl) fun _ => .inl)
    have hid : (m, id) = (p.key, p.channelProductID) ∨ (m, id) ∈ (γs i).seen := by
      simpa [Progress.next, hs, Stage.write] using hid
    rcases hid with heq | hid
    · cases heq
      obtain ⟨-, hview, -⟩ := h.placed.written_tx hs ht
      refine ⟨p, ?_, rfl⟩
      show w.view t p.key = some p
      rw [hview, World.put_self]
    · exact hγ.seen m id hid

theorem respond (h : Sound svc hashtext products (w, γs)) {call : Call} {result : Except (Err E R) String}
    (hknown : Known svc (γs i) call result) :
    Sound svc hashtext products ({ w with returned := (call, result) :: w.returned }, Function.update γs i (γs i)) := by
  let w' : World E R := { w with returned := (call, result) :: w.returned }
  have hgrow : w.Grows w' := ⟨rfl, fun _ _ hp => hp, fun _ ha => ha⟩
  have hγ := (h.learned.sessions i).grow hgrow
  refine update ?_ (h.learned.grow hgrow i hγ (fun _ => .inl) fun c hc => ?_)
  · rw [Function.update_eq_self]
    exact ⟨h.placed.idle, fun j s t hs ht => (h.placed.busy j s t hs ht).keep (fun _ _ => .rfl) fun _ _ hm => hm, h.placed.exclusive,
      h.placed.pending, h.placed.distinct, h.placed.attempted, h.placed.ended, h.placed.order, h.placed.stored, h.placed.origin⟩
  · rcases List.mem_cons.1 hc with rfl | hc
    · exact .inr (hknown.right hγ)
    · exact .inl hc

/-- Each call that is in order keeps the sessions where they believe to be. -/
theorem step (h : Sound svc hashtext products (w, γs)) {β : Type} {o : Op E R β} {r : β} (ho : (γs i).allows svc o)
    (hstep : Registration.step hashtext i o w r w') : Sound svc hashtext products (w', Function.update γs i ((γs i).next o r)) := by
  have hγ := h.learned.sessions i
  cases o with
  | getPlan planCode =>
    obtain ⟨rfl, rfl | ⟨e, rfl⟩⟩ := hstep
    · refine h.learn rfl ⟨hγ.seen, hγ.failed, fun code plan hplan => ?_⟩
      cases hplan
      rfl
    · exact h.stay
  | getChannelProduct m =>
    obtain ⟨rfl, rfl | ⟨e, rfl⟩⟩ := hstep
    · cases hm : w'.products m with
      | none => exact h.stay
      | some p =>
        refine h.learn rfl ⟨fun m' id hid => ?_, hγ.failed, hγ.plan⟩
        rcases List.mem_cons.1 hid with heq | hid
        · cases heq
          exact ⟨p, hm, rfl⟩
        · exact hγ.seen m' id hid
    · exact h.stay
  | begin =>
    obtain ⟨rfl, rfl⟩ | ⟨rfl, e, rfl⟩ := hstep
    · exact h.begin rfl ⟨hγ.seen, hγ.failed, hγ.plan⟩
    · exact h.stay
  | advisoryXactLock key =>
    obtain ⟨t, ht, hfree, rfl, rfl⟩ | ⟨rfl, e, rfl⟩ := hstep
    · exact h.lock ho ht hfree
    · exact h.stay
  | selectChannelProductID m =>
    obtain ⟨rfl, ⟨t, ht, rfl⟩ | ⟨e, rfl⟩⟩ := hstep
    · exact h.select ho ht
    · exact h.stay
  | upsertChannelProduct p =>
    obtain ⟨t, ht, hfree, rfl, rfl⟩ | ⟨rfl, e, rfl⟩ := hstep
    · exact h.upsert ho ht
    · exact h.stay
  | commit =>
    obtain ⟨p, hs⟩ := ho
    obtain ⟨t, ht, rfl, -⟩ | ⟨rfl, e, rfl⟩ := hstep
    · exact h.commit hs ht r
    · exact h.close rfl ⟨hγ.seen, hγ.failed, hγ.plan⟩
  | rollback =>
    obtain rfl := hstep
    exact h.close rfl ⟨hγ.seen, hγ.failed, hγ.plan⟩
  | registerProduct channel plan iv =>
    obtain ⟨hs, hadmits, hplan⟩ := ho
    obtain rfl := hstep
    exact h.register hs hadmits hplan r
  | respond call result =>
    obtain rfl := hstep
    exact h.respond ho.2

end Sound

end steps

/-! ## A caller alone at a mapping -/

section alone

variable {svc : Service} {hashtext : String → Int} {w : World E R} {i : Nat} {call : Call}

/-- Nobody holds the lock of the mapping, or has written it. -/
structure World.Free (hashtext : String → Int) (w : World E R) (m : Mapping) : Prop where
  locks : ∀ j t, w.tx j = some t → hashtext (lockKey m) ∉ t.locks
  writes : ∀ j t, w.tx j = some t → ∀ q ∈ t.writes, q.key ≠ m

/-- What a caller is told of the answer of the channel. -/
def Call.outcome (call : Call) (r : Except R String) : Except (Err E R) String :=
  r.mapError fun e => .registerProductOn call.channel (.remote e)

/-- Whoever comes to a mapping that is free and not there asks the channel, and stores what it answers. -/
theorem leads_atomic {channel : String} {plan : Plan} {iv : BillingInterval} (cents : Int) (now : Time)
    (hfree : w.Free hashtext (channel, plan.code, iv)) (hm : w.products (channel, plan.code, iv) = none) (r : Except R String) :
    ∃ w', Proc.Leads (step hashtext i) (registerChannelProductAtomic (channel, plan.code, iv)
        (Proc.perform .remote (.registerProduct channel plan iv)) cents now) w ((r.mapError .remote : Except (Err E R) String).map (·, false)) w' ∧
      w'.attempts = ⟨some w.nextXid, (channel, plan.code, iv), r⟩ :: w.attempts ∧ w'.returned = w.returned ∧
      ∀ id, r = .ok id → ∃ p, w'.products (channel, plan.code, iv) = some p ∧ p.channelProductID = id := by
  obtain ⟨m, hmapping⟩ : ∃ m : Mapping, m = (channel, plan.code, iv) := ⟨_, rfl⟩
  rw [← hmapping] at hfree hm ⊢
  let w₁ : World E R := { w.setTx i (some ⟨w.nextXid, [], []⟩) with nextXid := w.nextXid + 1 }
  let w₂ : World E R := w₁.setTx i (some ⟨w.nextXid, [hashtext (lockKey m)], []⟩)
  let w₃ : World E R := { w₂ with attempts := ⟨some w.nextXid, m, r⟩ :: w.attempts }
  have hself : ∀ (v : World E R) (t : Option Tx), (v.setTx i t).tx i = t := fun v t => Function.update_self ..
  have hother : ∀ {j u}, j ≠ i → w₂.tx j = some u → w.tx j = some u := by
    intro j u hj hu
    simpa [w₂, w₁, World.setTx, Function.update_of_ne hj] using hu
  have hbegin : step hashtext i (.begin : Op E R _) w (.ok ()) w₁ := .inl ⟨rfl, rfl⟩
  have hlock : step hashtext i (.advisoryXactLock (lockKey m) : Op E R _) w₁ (.ok ()) w₂ := by
    refine .inl ⟨_, hself _ _, fun j u hj hu => hfree.locks j u ?_, rfl, rfl⟩
    simpa [w₁, World.setTx, Function.update_of_ne hj] using hu
  have hselect : step hashtext i (.selectChannelProductID m : Op E R _) w₂ (.ok none) w₂ := by
    refine ⟨rfl, .inl ⟨_, hself _ _, ?_⟩⟩
    show _ = Except.ok ((w.products m).map _)
    rw [hm]
    rfl
  have hask : step hashtext i (.registerProduct channel plan iv : Op E R _) w₂ r w₃ := by
    show w₃ = _
    rw [hself, ← hmapping]
    rfl
  cases r with
  | error e =>
    refine ⟨w₃.setTx i none, ?_, rfl, rfl, fun id h => by cases h⟩
    refine (Proc.leads_perform hbegin).bind (Proc.Leads.deferring (b := ()) ?_ rfl)
    refine (Proc.leads_perform hlock).bind ((Proc.leads_perform hselect).bind ?_)
    exact (Proc.leads_perform hask).bind_error
  | ok id =>
    let p : ChannelProduct := ⟨m.1, m.2.1, m.2.2, id, cents, some now⟩
    let t : Tx := ⟨w.nextXid, [hashtext (lockKey m)], [p]⟩
    have hupsert : step hashtext i (.upsertChannelProduct p : Op E R _) w₃ (.ok ()) (w₃.setTx i (some t)) :=
      .inl ⟨_, hself _ _, fun j u hj hu q hq => hfree.writes j u (hother hj hu) q hq, rfl, rfl⟩
    have hcommit : step hashtext i (.commit : Op E R _) (w₃.setTx i (some t)) (.ok ()) ((w₃.setTx i (some t)).applied i t) :=
      .inl ⟨t, hself _ _, rfl, .inl rfl⟩
    refine ⟨((w₃.setTx i (some t)).applied i t).setTx i none, ?_, rfl, rfl, fun id' h => ⟨p, ?_, ?_⟩⟩
    · refine (Proc.leads_perform hbegin).bind (Proc.Leads.deferring (b := ()) ?_ rfl)
      refine (Proc.leads_perform hlock).bind ((Proc.leads_perform hselect).bind ?_)
      refine (Proc.leads_perform hask).bind ((Proc.leads_perform hupsert).bind ?_)
      exact (Proc.leads_perform hcommit).bind Proc.leads_pure
    · exact World.put_self _ p
    · exact Except.ok.inj h

/-- The whole call, up to the answer. -/
theorem serves_registrable {m : Mapping} (hcall : call.mapping = some m) (hreg : Registrable svc w m) (hfree : w.Free hashtext m)
    (hm : w.products m = none) (r : Except R String) :
    ∃ w', Script.Path (step hashtext i) (serve svc call : Script (Op E R) Unit) w (.ret ()) w' ∧
      w'.attempts = ⟨some w.nextXid, m, r⟩ :: w.attempts ∧ w'.returned = (call, call.outcome r) :: w.returned ∧
      ∀ id, r = .ok id → ∃ p, w'.products m = some p ∧ p.channelProductID = id := by
  obtain ⟨iv, hiv, rfl⟩ := Option.map_eq_some_iff.1 hcall
  obtain ⟨⟨plan, hcode⟩, hplan, ch, hch, hregisters, hcurrency, hpriced⟩ := hreg
  obtain ⟨w₁, hleads, hattempts, hreturned, hstored⟩ := leads_atomic (i := i) (planAmountCents plan iv) call.now
    (show w.Free hashtext (call.channel, plan.code, iv) by rwa [hcode]) (by rwa [hcode]) r
  rw [hcode] at hleads hattempts hstored
  refine ⟨{ w₁ with returned := (call, call.outcome r) :: w₁.returned }, ?_, hattempts, by rw [← hreturned], hstored⟩
  have hcalled : Proc.Leads (step hashtext i) (registerChannelProduct svc call) w (call.outcome r) w₁ := by
    have hgetPlan : step hashtext i (.getPlan call.planCode : Op E R _) w (.ok (w.getPlan call.planCode)) w := ⟨rfl, .inl rfl⟩
    have hget : step hashtext i (.getChannelProduct (call.channel, call.planCode, iv) : Op E R _) w
      (.ok (w.products (call.channel, call.planCode, iv))) w := ⟨rfl, .inl rfl⟩
    rw [hplan] at hgetPlan
    rw [hm] at hget
    unfold registerChannelProduct
    simp only [hiv, hch, hregisters, not_true_eq_false, if_false]
    refine (Proc.leads_perform hgetPlan).bind ?_
    simp only [hcurrency, not_true_eq_false, if_false]
    refine (Proc.leads_perform hget).bind ?_
    rw [if_neg (not_le.2 hpriced)]
    cases r with
    | error e => exact hleads.wrapping.bind_error
    | ok id => exact hleads.wrapping.bind Proc.leads_pure
  exact (hcalled.path.bind _).trans (.step rfl (.refl _ _))

end alone

/-! ## Runs -/

section runs

variable {svc : Service} {hashtext : String → Int} {plans : List Plan} {products : Mapping → Option ChannelProduct}
  {past : List (Pool (Op E R) (World E R) Unit)} {p : Pool (Op E R) (World E R) Unit} {i : Nat} {m : Mapping}

/-- However the calls are interleaved, the sessions are where they believe to be. -/
theorem sound_run (h : Run (Pool.Next (machine hashtext) (requests svc)) (.idle { plans, products }) past p) :
    ∃ γs, Sound svc hashtext products (p.shared, γs) ∧ ∀ i, p.session i = none → (γs i).stage = none := by
  obtain ⟨past', q, hrun, rfl⟩ := Pool.run_watched (W := monitor svc) h
  refine ⟨q.shared.2, ?_, fun i hi => ?_⟩
  · refine Pool.watched_invariant (I := Sound svc hashtext products) hrun (fun _ hm => accepts_requests hm) ?_ ?_ ?_ ?_
    · have hnothing : (monitor (E := E) (R := R) svc).init.True ({ plans, products } : World E R) :=
        ⟨fun _ _ h => (by cases h), fun _ _ h => (by cases h), fun _ _ h => by cases h⟩
      exact ⟨.start plans, fun _ => hnothing, fun _ h => (by cases h), fun _ h => by cases h⟩
    · rintro i β o r ⟨w, γs⟩ ⟨w', γs'⟩ hx ho - hstep hnext
      obtain rfl : γs' = _ := hnext
      exact hx.step ho hstep
    · rintro i ⟨w, γs⟩ hx
      have hγ := hx.learned.sessions i
      exact hx.close rfl ⟨hγ.seen, hγ.failed, hγ.plan⟩
    · intro x s' _ henv
      exact henv.elim
  · have hwatched : q.Watched (monitor svc) := hrun.invariant (I := fun q => q.Watched (monitor svc)) (Pool.watched_idle _)
      fun q q' hq hstep => hstep.of_given.watched (fun _ hm => accepts_requests hm) hq
    have hrests := hwatched i
    rw [show q.session i = none from hi] at hrests
    exact hrests

/-- If the registration that ran first for a mapping has succeeded and is committed, it is the only one and
whoever has called for the mapping has been given its id, or an error of the database, of which there is none where `E`
is empty. A registration that fails is
never committed, every row comes from one that has, and a session whose call has ended holds no lock. While no session
holds the lock of the mapping the next who calls asks the channel, and is given what it answers. -/
theorem registered_once (svc : Service) (hashtext : String → Int) (plans : List Plan) (products : Mapping → Option ChannelProduct)
    {past : List (Pool (Op E R) (World E R) Unit)} {p : Pool (Op E R) (World E R) Unit}
    (h : Run (Pool.Next (machine hashtext) (requests svc)) (.idle { plans, products }) past p) (m : Mapping) :
    (∀ a id, (p.shared.attemptsFor m).getLast? = some a → a.result = .ok id → p.shared.Committed a →
      p.shared.attemptsFor m = [a] ∧
      ∀ c ∈ p.shared.returned, c.1.mapping = some m → c.2 = .ok id ∨ ∃ e : Err E R, e.Store ∧ c.2 = .error e) ∧
    (∀ a ∈ p.shared.attemptsFor m, ∀ e, a.result = .error e → ¬ p.shared.Committed a) ∧
    (∀ row, p.shared.products m = some row → products m = some row ∨
      ∃ a ∈ p.shared.attemptsFor m, a.result = .ok row.channelProductID ∧ p.shared.Committed a) ∧
    (∀ i, p.session i = none → p.shared.tx i = none) ∧
    (∀ i call r, p.session i = none → call.mapping = some m → Registrable svc p.shared m → p.shared.products m = none →
      (∀ j t, p.shared.tx j = some t → hashtext (lockKey m) ∉ t.locks) →
      ∃ past' p', Run (Pool.Next (machine hashtext) (requests svc)) p past' p' ∧
        (∃ a, p'.shared.attemptsFor m = a :: p.shared.attemptsFor m ∧ a.result = r) ∧
        p'.shared.returned = (call, call.outcome r) :: p.shared.returned ∧
        ∀ id, r = .ok id → ∃ row, p'.shared.products m = some row ∧ row.channelProductID = id) := by
  obtain ⟨γs, ⟨hplaced, hlearned⟩, hidle⟩ := sound_run h
  have hmem : ∀ a, a ∈ p.shared.attemptsFor m ↔ a ∈ p.shared.attempts ∧ a.mapping = m := fun a => by
    simp [World.attemptsFor]
  refine ⟨fun a id hfirst hok hcommitted => ?_, fun a ha e he hcommitted => ?_, fun row hrow => ?_,
    fun i hi => (hplaced.idle i).2 (hidle i hi), ?_⟩
  · have ha := (hmem a).1 (List.mem_of_getLast? hfirst)
    -- an attempt that others follow is dead
    have honly : p.shared.attemptsFor m = [a] := by
      have hdead : (p.shared.attemptsFor m).Pairwise fun b a => p.shared.Dead a :=
        (hplaced.order.filter _).imp_of_mem fun {b c} hb hc hdead => hdead (by rw [((hmem b).1 hb).2, ((hmem c).1 hc).2])
      obtain ⟨l, hl⟩ := List.getLast?_eq_some_iff.1 hfirst
      rw [hl] at hdead ⊢
      cases l with
      | nil => rfl
      | cons b l =>
        have hbefore := (List.pairwise_append.1 hdead).2.2 b List.mem_cons_self a List.mem_cons_self
        exact absurd hcommitted hbefore.1
    refine ⟨honly, fun c hc hcm => ?_⟩
    obtain ⟨row, hrow, hres⟩ := hplaced.stored a ha.1 hcommitted
    rw [ha.2] at hrow
    have hid : row.channelProductID = id := Except.ok.inj (hres.symm.trans hok)
    obtain ⟨call, result⟩ := c
    have hright : Right svc p.shared call result := hlearned.returned _ hc
    cases hright with
    | found hm hp =>
      cases hm.symm.trans hcm
      cases hp.symm.trans hrow
      exact .inl (congrArg _ hid)
    | store he => exact .inr ⟨_, he, rfl⟩
    | @failed m' b e hm hb hbm he =>
      cases hm.symm.trans hcm
      have hb := (hmem b).2 ⟨hb, hbm⟩
      rw [honly, List.mem_singleton] at hb
      rw [hb, hok] at he
      cases he
    | refused hno => exact absurd (ha.2 ▸ hlearned.asked a ha.1) (hno m hcm)
  · obtain ⟨row, -, hok⟩ := hplaced.stored a ((hmem a).1 ha).1 hcommitted
    rw [he] at hok
    cases hok
  · rcases hplaced.origin m row hrow with hstart | ⟨a, ha, ham, hcommitted, hok⟩
    · exact .inl hstart
    · exact .inr ⟨a, (hmem a).2 ⟨ha, ham⟩, hok, hcommitted⟩
  · intro i call r hi hcall hreg hnone hlocks
    have hfree : p.shared.Free hashtext m := by
      refine ⟨hlocks, fun j t ht q hq hkey => ?_⟩
      obtain ⟨s, hs⟩ : ∃ s, (γs j).stage = some s := by
        refine Option.ne_none_iff_exists'.1 fun hidle => ?_
        rw [(hplaced.idle j).2 hidle] at ht
        cases ht
      have hat := hplaced.busy j s t hs ht
      rw [hat.writes] at hq
      -- who has written the mapping holds its lock
      cases s with
      | written p =>
        rw [show q = p by simpa [Stage.write] using hq] at hkey
        exact hlocks j t ht (hat.locked (hkey ▸ rfl))
      | _ => cases hq
    obtain ⟨w', hpath, hattempts, hreturned, hstored⟩ := serves_registrable (i := i) hcall hreg hfree hnone r
    have hstart : Pool.Next (machine hashtext) (requests svc) p (p.move i (some (serve svc call)) p.shared) := .start hi ⟨call, rfl⟩
    obtain ⟨past', hrun⟩ := Pool.runs_path (M := machine hashtext) hpath
      (show (p.move i (some (serve svc call)) p.shared).shared = p.shared from rfl) (Pool.move_session_self ..)
    refine ⟨_, _, (Run.next .start hstart).trans hrun, ⟨⟨some p.shared.nextXid, m, r⟩, ?_, rfl⟩, hreturned, hstored⟩
    show List.filter _ w'.attempts = _
    rw [hattempts, List.filter_cons_of_pos (by simp)]
    rfl

/-- A channel that registers products, and a plan that has a price. -/
def sampleService : Service :=
  { channels := fun name => if name = "waffo" then some ⟨"waffo", fun _ => .error "", true, [], none, true, false, false, none⟩ else none,
    currency := "USD" }

def samplePlan : Plan := ⟨"pro", ⟨[("price_monthly_cents", 900)], by decide⟩, "USD"⟩

/-- The plan is registered by the first call. -/
theorem registered_once_sample : ∃ (past : List (Pool (Op String String) (World String String) Unit)) (p : Pool _ _ Unit) (a : Attempt String),
    Run (Pool.Next (machine fun key => key.length) (requests sampleService)) (.idle { plans := [samplePlan], products := fun _ => none }) past p ∧
      p.shared.attemptsFor ("waffo", "pro", .monthly) = [a] ∧ a.result = .ok "prod_1" ∧ p.shared.Committed a ∧
      p.shared.returned = [(⟨"waffo", "pro", "monthly", 0⟩, .ok "prod_1")] := by
  have hstart := registered_once (E := String) (R := String) sampleService (fun key => key.length) [samplePlan] (fun _ => none) .start
    ("waffo", "pro", .monthly)
  obtain ⟨-, -, -, -, hnext⟩ := hstart
  obtain ⟨past, p, hrun, ⟨a, hattempts, ha⟩, hreturned, hstored⟩ := hnext 0 ⟨"waffo", "pro", "monthly", 0⟩ (.ok "prod_1") rfl rfl
    ⟨⟨samplePlan, rfl⟩, rfl, _, rfl, rfl, rfl, by decide⟩ rfl fun j t ht => by cases ht
  obtain ⟨row, hrow, -⟩ := hstored "prod_1" rfl
  have hrun' := Run.start.trans hrun
  obtain ⟨-, -, horigin, -, -⟩ := registered_once (E := String) (R := String) sampleService (fun key => key.length) [samplePlan] (fun _ => none)
    hrun' ("waffo", "pro", .monthly)
  rcases horigin row hrow with hbefore | ⟨b, hb, -, hcommitted⟩
  · cases hbefore
  · have hone : p.shared.attemptsFor ("waffo", "pro", .monthly) = [a] := hattempts
    rw [hone, List.mem_singleton] at hb
    exact ⟨_, p, a, hrun', hone, ha, hb ▸ hcommitted, hreturned⟩

end runs

end Ploykit.Billing.Registration

import Mathlib.Algebra.BigOperators.Ring.Finset
import Mathlib.Algebra.Order.BigOperators.Group.Finset
import Mathlib.Tactic.Ring
import Ploykit.Wsx.Client

/-!
# The relay

`PublishOut`, `Forward` and `Run` of `platform/relayx/relay.go`, and the envelopes of several
replicas under way. The transport hands each payload to whom it likes, once at most, in any
order, and may lose it. A `deliver` callback may call `Forward` with what it was given, at
once or later on; what it does with its own hub publishes nothing.
-/

namespace Ploykit.Relayx

open Finset Wsx

structure Envelope where
  origin : String
  scope : String
  frame : Frame
  hops : Nat

def maxHops : Nat := 4

/-- `encoding/json`, of which it is known that an envelope keeps its origin and its hops. -/
structure Json (Payload : Type) where
  marshal : Envelope → Option Payload
  unmarshal : Payload → Option Envelope
  faithful : ∀ env payload env', marshal env = some payload → unmarshal payload = some env' →
    env'.origin = env.origin ∧ env'.hops = env.hops

namespace Relay

/-- What `PublishOut` publishes. -/
def publishOut (self scope : String) (frame : Frame) : Envelope := { origin := self, scope, frame, hops := 0 }

def hopsExhausted (env : Envelope) : Bool := maxHops ≤ env.hops

/-- What `Forward` publishes, unless it answers `false`. -/
def forward (self : String) (env : Envelope) : Option Envelope :=
  if hopsExhausted env then none else some { env with hops := env.hops + 1, origin := self }

variable {Payload : Type} (json : Json Payload)

/-- What `Run` delivers of a payload. -/
def receive (self : String) (payload : Payload) : Option Envelope :=
  match json.unmarshal payload with
  | none => none
  | some env => if env.origin = self then none else if hopsExhausted env then none else some env

variable {json} {self : String} {env env' : Envelope} {payload : Payload}

theorem receive_eq_some (h : receive json self payload = some env) :
    json.unmarshal payload = some env ∧ env.origin ≠ self ∧ env.hops < maxHops := by
  unfold receive at h
  split at h
  · cases h
  · rename_i env' hread
    split at h
    · cases h
    · rename_i hforeign
      split at h
      · cases h
      · rename_i hfresh
        cases h
        exact ⟨hread, hforeign, by simpa [hopsExhausted] using hfresh⟩

theorem forward_eq_some (h : forward self env = some env') :
    env.hops < maxHops ∧ env'.hops = env.hops + 1 ∧ env'.origin = self := by
  unfold forward at h
  split at h
  · cases h
  · rename_i hfresh
    cases h
    exact ⟨by simpa [hopsExhausted] using hfresh, rfl, rfl⟩

end Relay

/-! ## Replicas -/

/-- An envelope counts at its number of hops. -/
def tally (env : Envelope) (hops : Nat) : Nat := if env.hops = hops then 1 else 0

/-- What is under way between the replicas `R`, and how many envelopes have been published and
delivered with each number of hops. -/
structure World (R Payload : Type) where
  flying : Multiset (R × Payload) := 0
  /-- The calls of `Forward` that callbacks may still make. -/
  calls : Multiset (R × Envelope) := 0
  originals : Nat := 0
  published : Nat → Nat := 0
  delivered : Nat → Nat := 0

variable {R Payload : Type} (json : Json Payload) (name : R → String) (k : Nat)

namespace World

/-- `publishEnvelope`. The transport has a copy for each of the replicas `subs`. -/
def publish (w : World R Payload) (env : Envelope) (subs : Finset R) : World R Payload :=
  match json.marshal env with
  | none => w
  | some payload =>
    { w with
      flying := w.flying + subs.val.map fun r => (r, payload)
      published := w.published + tally env }

/-- The callback has been given an envelope, and calls `Forward` at most `k` times. -/
def deliver (w : World R Payload) (r : R) (env : Envelope) : World R Payload :=
  { w with
    calls := w.calls + Multiset.replicate k (r, env)
    delivered := w.delivered + tally env }

end World

open Relay

inductive Step (w : World R Payload) : World R Payload → Prop
  | publishOut (r : R) (scope : String) (frame : Frame) (subs : Finset R) :
    Step w (World.publish json { w with originals := w.originals + 1 } (publishOut (name r) scope frame) subs)
  | lose {c : R × Payload} {rest : Multiset (R × Payload)} (h : w.flying = c ::ₘ rest) : Step w { w with flying := rest }
  | receive {r : R} {payload : Payload} {rest : Multiset (R × Payload)} (h : w.flying = (r, payload) ::ₘ rest) :
    Step w ((receive json (name r) payload).elim { w with flying := rest } (World.deliver k { w with flying := rest } r))
  /-- The callback may have changed the scope and the frame. -/
  | forward {r : R} {env : Envelope} {rest : Multiset (R × Envelope)} (h : w.calls = (r, env) ::ₘ rest)
    (scope : String) (frame : Frame) (subs : Finset R) :
    Step w ((forward (name r) { env with scope, frame }).elim { w with calls := rest } fun env' =>
      World.publish json { w with calls := rest } env' subs)

/-- What is reached from a start at which nothing is under way. -/
inductive Reaches : World R Payload → Prop
  | start : Reaches {}
  | step {w w' : World R Payload} (h : Reaches w) (hs : Step json name k w w') : Reaches w'

/-! ## What is to come -/

/-- The copies under way that will be delivered if they are not lost. -/
def World.flyingAt (w : World R Payload) (hops : Nat) : Nat :=
  w.flying.countP fun c => (receive json (name c.1) c.2).map Envelope.hops = some hops

def World.callsAt (w : World R Payload) (hops : Nat) : Nat := w.calls.countP fun c => c.2.hops = hops

variable [Fintype R]

/-- The others than the publisher. -/
def others (R : Type) [Fintype R] : Nat := Fintype.card R - 1

/-- Each envelope reaches the others, and each of them forwards it `k` times, with one hop more.
There is room for what is about to be published. -/
structure Bounded (w : World R Payload) (room : Nat → Nat) : Prop where
  spent : ∀ hops > maxHops, w.published hops + room hops = 0
  fresh : ∀ hops ≥ maxHops, w.delivered hops = 0
  originals : w.published 0 + room 0 ≤ w.originals
  heard hops : w.delivered hops + w.flyingAt json name hops ≤ others R * w.published hops
  called hops : w.published (hops + 1) + room (hops + 1) + w.callsAt hops ≤ k * w.delivered hops

section copies

variable {json name k}

/-- The copies of an envelope that are delivered are delivered with its hops, and not to its publisher. -/
theorem countP_copies_le {env : Envelope} {payload : Payload} (hmarshal : json.marshal env = some payload) {r : R}
    (horigin : env.origin = name r) (subs : Finset R) (hops : Nat) :
    (subs.val.map fun r => (r, payload)).countP (fun c => (receive json (name c.1) c.2).map Envelope.hops = some hops)
      ≤ others R * tally env hops := by
  classical
  rw [Multiset.countP_map]
  have hheard : ∀ s, (receive json (name s) payload).map Envelope.hops = some hops → env.hops = hops ∧ s ≠ r := by
    intro s hs
    obtain ⟨env', hreceive, hhops⟩ := Option.map_eq_some_iff.1 hs
    obtain ⟨hread, hforeign, -⟩ := receive_eq_some hreceive
    obtain ⟨hkept, hsame⟩ := json.faithful env payload env' hmarshal hread
    refine ⟨hsame.symm.trans hhops, ?_⟩
    rintro rfl
    exact hforeign (hkept.trans horigin)
  rw [tally]
  split
  · rw [Nat.mul_one]
    refine le_trans (Multiset.card_le_card (t := (univ.erase r).val) ?_) (card_erase_of_mem (mem_univ r)).le
    refine (Multiset.le_iff_subset (subs.nodup.filter _)).2 fun s hs => ?_
    exact mem_erase.2 ⟨(hheard s (Multiset.mem_filter.1 hs).2).2, mem_univ s⟩
  · rename_i hne
    rw [Nat.mul_zero, Multiset.filter_eq_nil.2 fun s _ hs => hne (hheard s hs).1, Multiset.card_zero]

theorem Bounded.publish {w : World R Payload} {env : Envelope} {r : R} (h : Bounded json name k w (tally env))
    (horigin : env.origin = name r) (subs : Finset R) : Bounded json name k (w.publish json env subs) 0 := by
  unfold World.publish
  split
  · refine ⟨fun n hn => Nat.eq_zero_of_add_eq_zero_right (h.spent n hn), h.fresh, (Nat.le_add_right _ _).trans h.originals, h.heard,
      fun n => ?_⟩
    exact (Nat.add_le_add_right (Nat.le_add_right _ _) _).trans (h.called n)
  · rename_i payload hmarshal
    refine ⟨h.spent, h.fresh, h.originals, fun n => ?_, h.called⟩
    have hcopies := countP_copies_le hmarshal horigin subs n
    simp only [World.flyingAt, Multiset.countP_add, Pi.add_apply, Nat.mul_add]
    exact (Nat.add_assoc _ _ _).symm.trans_le (Nat.add_le_add (h.heard n) hcopies)

theorem Bounded.deliver {w : World R Payload} {env : Envelope} (h : Bounded json name k w 0) (hfresh : env.hops < maxHops)
    {r : R} {payload : Payload} (hreceive : receive json (name r) payload = some env) {rest : Multiset (R × Payload)}
    (hflying : w.flying = (r, payload) ::ₘ rest) : Bounded json name k (World.deliver k { w with flying := rest } r env) 0 := by
  refine ⟨h.spent, fun n hn => ?_, h.originals, fun n => ?_, fun n => ?_⟩
  · have hzero : tally env n = 0 := if_neg (hfresh.trans_le hn).ne
    exact Nat.add_eq_zero_iff.2 ⟨h.fresh n hn, hzero⟩
  · have hheard := h.heard n
    rw [World.flyingAt, hflying, Multiset.countP_cons, hreceive, Option.map_some] at hheard
    simp only [Option.some.injEq] at hheard
    exact ((Nat.add_right_comm _ _ _).trans (Nat.add_assoc _ _ _)).trans_le hheard
  · have hcalls : (Multiset.replicate k (r, env)).countP (fun c => c.2.hops = n) = k * tally env n := by
      rw [← Multiset.nsmul_singleton, Multiset.countP_nsmul, ← Multiset.cons_zero, Multiset.countP_cons, Multiset.countP_zero,
        Nat.zero_add]
      rfl
    simp only [World.callsAt, World.deliver, Multiset.countP_add, hcalls, Pi.add_apply, Nat.mul_add]
    exact (Nat.add_assoc _ _ _).symm.trans_le (Nat.add_le_add_right (h.called n) _)

theorem Bounded.step {w w' : World R Payload} (h : Bounded json name k w 0) (hs : Step json name k w w') :
    Bounded json name k w' 0 := by
  cases hs with
  | publishOut r scope frame subs =>
    have hroom : Bounded json name k { w with originals := w.originals + 1 } (tally (publishOut (name r) scope frame)) := by
      refine ⟨fun n hn => ?_, h.fresh, Nat.add_le_add_right h.originals 1, h.heard, h.called⟩
      exact Nat.add_eq_zero_iff.2 ⟨h.spent n hn, if_neg (Nat.zero_lt_of_lt hn).ne⟩
    exact hroom.publish rfl subs
  | lose hflying =>
    refine ⟨h.spent, h.fresh, h.originals, fun n => le_trans (Nat.add_le_add_left ?_ _) (h.heard n), h.called⟩
    rw [World.flyingAt, World.flyingAt, hflying]
    exact Multiset.countP_le_of_le _ (Multiset.le_cons_self _ _)
  | @receive r payload rest hflying =>
    cases hreceive : receive json (name r) payload with
    | none =>
      refine ⟨h.spent, h.fresh, h.originals, fun n => le_trans (Nat.add_le_add_left ?_ _) (h.heard n), h.called⟩
      rw [World.flyingAt, World.flyingAt, hflying]
      exact Multiset.countP_le_of_le _ (Multiset.le_cons_self _ _)
    | some env => exact h.deliver (receive_eq_some hreceive).2.2 hreceive hflying
  | @forward r env rest hcalls scope frame subs =>
    have hcalled : ∀ n, w.published (n + 1) + (rest.countP (fun c => c.2.hops = n) + tally env n) ≤ k * w.delivered n := by
      intro n
      have hcalled := h.called n
      rwa [World.callsAt, hcalls, Multiset.countP_cons] at hcalled
    cases hforward : forward (name r) { env with scope, frame } with
    | none =>
      refine ⟨h.spent, h.fresh, h.originals, h.heard, fun n => ?_⟩
      exact le_trans (Nat.add_le_add_left (Nat.le_add_right _ _) _) (hcalled n)
    | some env' =>
      obtain ⟨hfresh, hnext, horigin⟩ := forward_eq_some hforward
      have htally : ∀ n, tally env' (n + 1) = tally env n := by
        intro n
        simp only [tally, hnext, Nat.add_right_cancel_iff]
      refine Bounded.publish (w := { w with calls := rest }) ⟨fun n hn => ?_, h.fresh, ?_, h.heard, fun n => ?_⟩ horigin subs
      · exact Nat.add_eq_zero_iff.2 ⟨h.spent n hn, if_neg ((hnext.trans_le hfresh).trans_lt hn).ne⟩
      · rw [tally, if_neg (hnext.trans_ne (Nat.succ_ne_zero _))]
        exact h.originals
      · rw [htally, Nat.add_right_comm, Nat.add_assoc]
        exact hcalled n

end copies

theorem Reaches.bounded {w : World R Payload} (h : Reaches json name k w) : Bounded json name k w 0 := by
  induction h with
  | start => exact ⟨fun _ _ => rfl, fun _ _ => rfl, Nat.le_refl 0, fun _ => Nat.zero_le _, fun _ => Nat.zero_le _⟩
  | step _ hs ih => exact ih.step hs

/-! ## The bounds -/

namespace Bounded

variable {json name k} {w : World R Payload} (h : Bounded json name k w 0)

include h

theorem published_le (hops : Nat) : w.published hops ≤ w.originals * (others R * k) ^ hops := by
  induction hops with
  | zero => exact h.originals.trans_eq (Nat.mul_one _).symm
  | succ n ih =>
    calc w.published (n + 1)
      _ ≤ k * w.delivered n := (Nat.le_add_right _ _).trans (h.called n)
      _ ≤ k * (others R * w.published n) := Nat.mul_le_mul_left _ ((Nat.le_add_right _ _).trans (h.heard n))
      _ ≤ k * (others R * (w.originals * (others R * k) ^ n)) := Nat.mul_le_mul_left _ (Nat.mul_le_mul_left _ ih)
      _ = w.originals * (others R * k) ^ (n + 1) := by ring

theorem delivered_le (hops : Nat) : w.delivered hops ≤ others R * (w.originals * (others R * k) ^ hops) :=
  calc w.delivered hops
    _ ≤ others R * w.published hops := (Nat.le_add_right _ _).trans (h.heard hops)
    _ ≤ others R * (w.originals * (others R * k) ^ hops) := Nat.mul_le_mul_left _ (h.published_le hops)

end Bounded

/-- However the transport and the callbacks behave, nothing is published with more than four hops or delivered with
more than three, and what is published and delivered of the envelopes that hubs have sent is bounded. -/
theorem relay_bounded {w : World R Payload} (h : Reaches json name k w) :
    (∀ hops > maxHops, w.published hops = 0) ∧ (∀ hops ≥ maxHops, w.delivered hops = 0) ∧
    (∀ hops, w.published hops ≤ w.originals * (others R * k) ^ hops) ∧
    (∀ hops, w.delivered hops ≤ others R * (w.originals * (others R * k) ^ hops)) ∧
    ∑ hops ∈ range (maxHops + 1), w.published hops ≤ w.originals * ∑ hops ∈ range (maxHops + 1), (others R * k) ^ hops := by
  have hbounded := h.bounded
  refine ⟨hbounded.spent, hbounded.fresh, hbounded.published_le, hbounded.delivered_le, ?_⟩
  rw [mul_sum]
  exact sum_le_sum fun hops _ => hbounded.published_le hops

def plainJson : Json Envelope where
  marshal := some
  unmarshal := some
  faithful env payload env' hmarshal hread := by
    cases hmarshal
    cases hread
    exact ⟨rfl, rfl⟩

def pair (r : Bool) : String := if r then "b" else "a"

def frame : Frame := { type := "t", payload := "", eventID := "" }

/-- One of two replicas forwards what the other has published. -/
theorem relay_bounded_pair : ∃ w : World Bool Envelope, Reaches plainJson pair 1 w ∧ w.published 1 = 1 ∧
    w.published 1 ≤ w.originals * (others Bool * 1) ^ 1 := by
  have hpublished : Reaches plainJson pair 1 _ := .step .start (.publishOut false "s" frame {true})
  have hreceived := hpublished.step (.receive (rfl : _ = (true, Relay.publishOut "a" "s" frame) ::ₘ 0))
  have hforwarded := hreceived.step (.forward (rfl : _ = (true, Relay.publishOut "a" "s" frame) ::ₘ 0) "s" frame ∅)
  exact ⟨_, hforwarded, rfl, (relay_bounded _ _ _ hforwarded).2.2.1 1⟩

end Ploykit.Relayx

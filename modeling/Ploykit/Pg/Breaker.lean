import Mathlib.Data.Int.Order.Basic
import Mathlib.Order.Nat
import Ploykit.Lib.Labelled

/-!
# The breaker of the replica

`breaker` and `DB.Read` of `platform/pg/pg.go`, for reads outside of a transaction. `Allow`, the end
of the query on the replica, the end of its repetition on the primary and the deferred release are one
step each. Times are numbers of nanoseconds.
-/

namespace Ploykit.Pg

open Lib

structure Breaker where
  openUntil : Option Int := none
  probing : Bool := false

namespace Breaker

/-- Whether the caller may use the replica. -/
def Allow (b : Breaker) (now : Int) : Bool × Breaker :=
  match b.openUntil with
  | none => (true, b)
  | some u => if now < u then (false, b) else if b.probing then (false, b) else (true, { b with probing := true })

def OnSuccess (_ : Breaker) : Breaker := { openUntil := none, probing := false }

def Trip (_ : Breaker) (openFor now : Int) : Breaker := { openUntil := some (now + openFor), probing := false }

def release (b : Breaker) : Breaker := { b with probing := false }

end Breaker

/-- Where a read is: its query runs on the replica, it is repeated on the primary, the release is to come, or it has returned. -/
inductive Stage where
  | querying
  | fallback
  | ending
  | returned
  deriving DecidableEq

/-- A read with what it found and what it used. -/
structure Read where
  absent : Bool := false
  refused : Bool := false
  failed : Bool := false
  replica : Bool := false
  primary : Bool := false
  /-- It was let through while the breaker was half-open. -/
  probe : Bool := false
  /-- How many trips there had been. -/
  trips : Nat
  stage : Stage

/-- How a query ends: with no error or one that says nothing about the connection, with a transient error of the connection, or
with an error of the caller's context. -/
inductive Outcome where
  | answered
  | transient
  | cancelled

structure DB (R : Type) where
  replica : Bool
  breaker : Breaker := {}
  now : Int
  reads : R → Option Read := fun _ => none
  trips : Nat := 0
  /-- For the record: the last trip, until a probe that started after it has succeeded. -/
  tripped : Option Int := none

inductive Event (R : Type) where
  | start (r : R)
  | outcome (r : R) (o : Outcome)
  | finish (r : R)
  | release (r : R)
  | pass (d : Nat)
  /-- The replica is stored that was connected after a retry. -/
  | attach
  /-- The breaker is told of it. -/
  | attached

namespace DB

variable {R : Type} [DecidableEq R] (s : DB R) (openFor : Int)

def put (r : R) (x : Read) : DB R := { s with reads := Function.update s.reads r (some x) }

def enter (r : R) : DB R :=
  if s.replica = false then s.put r { absent := true, primary := true, trips := s.trips, stage := .returned }
  else if (s.breaker.Allow s.now).1 then
    { s with breaker := (s.breaker.Allow s.now).2 }.put r
      { replica := true, probe := s.breaker.openUntil.isSome, trips := s.trips, stage := .querying }
  else s.put r { refused := true, primary := true, trips := s.trips, stage := .returned }

def conclude (r : R) (x : Read) : Outcome → DB R
  | .answered =>
    { s with breaker := s.breaker.OnSuccess, tripped := if x.probe ∧ x.trips = s.trips then none else s.tripped }.put r
      { x with stage := .ending }
  | .transient =>
    { s with breaker := s.breaker.Trip openFor s.now, trips := s.trips + 1, tripped := some s.now }.put r
      { x with failed := true, primary := true, stage := .fallback }
  | .cancelled => s.put r { x with stage := .ending }

/-- The step of a read that is in the stage. -/
def within (r : R) (stage : Stage) (k : Read → DB R) : Option (DB R) := ((s.reads r).filter (·.stage = stage)).map k

def step : Event R → Option (DB R)
  | .start r => if s.reads r = none then some (s.enter r) else none
  | .outcome r o => s.within r .querying fun x => s.conclude openFor r x o
  | .finish r => s.within r .fallback fun x => s.put r { x with stage := .ending }
  | .release r => s.within r .ending fun x => { s with breaker := s.breaker.release }.put r { x with stage := .returned }
  | .pass d => some { s with now := s.now + d }
  | .attach => some { s with replica := true }
  | .attached => some { s with breaker := s.breaker.OnSuccess }

end DB

/-! ## What runs keep -/

section runs

variable {R : Type} [DecidableEq R] {openFor : Int} {s s' : DB R} {r : R}

/-- The read is a probe whose query runs. -/
def Probes (s : DB R) (r : R) : Prop := ∃ x, s.reads r = some x ∧ x.stage = .querying ∧ x.probe = true

/-- No result comes from a read that was let through before the breaker tripped, unless it finds the breaker closed; and no read
trips the breaker or returns while the probe of another is in flight. -/
def Timely (s : DB R) : Event R → Prop
  | .outcome r .answered => s.breaker.openUntil = none ∨ Probes s r
  | .outcome r .transient => ∀ r', Probes s r' → r' = r
  | .release _ => ∀ r, ¬ Probes s r
  | .attached => s.breaker.openUntil = none
  | _ => True

structure Guarded (openFor : Int) (s : DB R) : Prop where
  /-- After a trip the replica is left alone for the time, unless a probe that started after it has succeeded. -/
  avoids : ∀ r s' x, s.step openFor (.start r) = some s' → s'.reads r = some x → x.replica = true →
    ∀ t, s.tripped = some t → t + openFor ≤ s.now
  single : ∀ r r', Probes s r → Probes s r' → r = r'
  primary : ∀ r x, s.reads r = some x → (x.primary = true ↔ x.absent = true ∨ x.refused = true ∨ x.failed = true)

structure Inv (openFor : Int) (s : DB R) : Prop where
  tripped : ∀ t, s.tripped = some t → s.breaker.openUntil = some (t + openFor)
  probing : ∀ r x, s.reads r = some x → x.stage = .querying → x.probe = true →
    x.trips = s.trips ∧ s.breaker.probing = true ∧ ∃ u, s.breaker.openUntil = some u ∧ u ≤ s.now
  single : ∀ r r', Probes s r → Probes s r' → r = r'
  primary : ∀ r x, s.reads r = some x → (x.primary = true ↔ x.absent = true ∨ x.refused = true ∨ x.failed = true)

/-- What `Allow` finds when it lets a caller through. -/
theorem allow_cases {b : Breaker} {now : Int} (h : (b.Allow now).1 = true) :
    b.openUntil = none ∧ (b.Allow now).2 = b ∨
      ∃ u, b.openUntil = some u ∧ u ≤ now ∧ b.probing = false ∧ (b.Allow now).2 = { b with probing := true } := by
  unfold Breaker.Allow at h ⊢
  cases hopen : b.openUntil with
  | none => exact .inl ⟨rfl, rfl⟩
  | some u =>
    rw [hopen] at h
    simp only at h ⊢
    split at h
    · cases h
    · rename_i hnow
      split at h
      · cases h
      · rename_i hprobing
        rw [if_neg hnow, if_neg hprobing]
        exact .inr ⟨u, rfl, not_lt.1 hnow, Bool.eq_false_iff.2 hprobing, rfl⟩

theorem reads_put (s : DB R) (r r' : R) (x : Read) : (s.put r x).reads r' = if r' = r then some x else s.reads r' := by
  exact Function.update_apply s.reads r (some x) r'

omit [DecidableEq R] in
theorem within_some {stage : Stage} {k : Read → DB R} (h : s.within r stage k = some s') :
    ∃ x, s.reads r = some x ∧ x.stage = stage ∧ s' = k x := by
  obtain ⟨x, hx, rfl⟩ := Option.map_eq_some_iff.1 h
  obtain ⟨hread, hstage⟩ := Option.filter_eq_some_iff.1 hx
  exact ⟨x, hread, of_decide_eq_true hstage, rfl⟩

theorem Inv.guarded (h : Inv openFor s) : Guarded openFor s := by
  refine ⟨fun r s' x hs hx hreplica t ht => ?_, h.single, h.primary⟩
  rw [DB.step] at hs
  split at hs
  · cases hs
    unfold DB.enter at hx
    split at hx
    · rw [reads_put, if_pos rfl] at hx
      cases hx
      exact absurd hreplica Bool.false_ne_true
    · split at hx
      · rename_i hallow
        have hopen := h.tripped t ht
        rcases allow_cases hallow with ⟨hclosed, -⟩ | ⟨u, hu, hnow, -⟩
        · rw [hclosed] at hopen
          cases hopen
        · rw [hu] at hopen
          cases hopen
          exact hnow
      · rw [reads_put, if_pos rfl] at hx
        cases hx
        exact absurd hreplica Bool.false_ne_true
  · cases hs

/-- A read is written whose query is no probe in flight. -/
theorem Inv.put_idle (h : Inv openFor s) {x : Read} (hidle : x.stage = .querying → x.probe = false)
    (hprimary : x.primary = true ↔ x.absent = true ∨ x.refused = true ∨ x.failed = true) : Inv openFor (s.put r x) := by
  have hold : ∀ r', Probes (s.put r x) r' → Probes s r' := by
    rintro r' ⟨x', hx', hstage, hprobe⟩
    rw [reads_put] at hx'
    split at hx'
    · cases hx'
      rw [hidle hstage] at hprobe
      cases hprobe
    · exact ⟨x', hx', hstage, hprobe⟩
  refine ⟨h.tripped, fun r' x' hx' hstage hprobe => ?_, fun r' r'' h' h'' => h.single r' r'' (hold r' h') (hold r'' h''),
    fun r' x' hx' => ?_⟩
  · rw [reads_put] at hx'
    split at hx'
    · cases hx'
      rw [hidle hstage] at hprobe
      cases hprobe
    · exact h.probing r' x' hx' hstage hprobe
  · rw [reads_put] at hx'
    split at hx'
    · cases hx'
      exact hprimary
    · exact h.primary r' x' hx'

omit [DecidableEq R] in
/-- The breaker is free to change while no probe is in flight. -/
theorem Inv.of_quiet (h : Inv openFor s) (hreads : s'.reads = s.reads) (hquiet : ∀ r, ¬ Probes s r)
    (htripped : ∀ t, s'.tripped = some t → s'.breaker.openUntil = some (t + openFor)) : Inv openFor s' := by
  refine ⟨htripped, fun r x hx hstage hprobe => ?_, fun r r' hr => ?_, fun r x hx => ?_⟩
  · rw [hreads] at hx
    exact absurd ⟨x, hx, hstage, hprobe⟩ (hquiet r)
  · obtain ⟨x, hx, hprobes⟩ := hr
    rw [hreads] at hx
    exact absurd ⟨x, hx, hprobes⟩ (hquiet r)
  · rw [hreads] at hx
    exact h.primary r x hx

omit [DecidableEq R] in
theorem not_probes_closed (h : Inv openFor s) (hclosed : s.breaker.openUntil = none) (r : R) : ¬ Probes s r := by
  rintro ⟨x, hx, hstage, hprobe⟩
  obtain ⟨-, -, u, hu, -⟩ := h.probing r x hx hstage hprobe
  rw [hclosed] at hu
  cases hu

omit [DecidableEq R] in
theorem not_tripped_closed (h : Inv openFor s) (hclosed : s.breaker.openUntil = none) : s.tripped = none := by
  refine Option.eq_none_iff_forall_ne_some.2 fun t ht => ?_
  have hopen := h.tripped t ht
  rw [hclosed] at hopen
  cases hopen

/-- A probe starts while no other is in flight. -/
theorem Inv.put_probe (h : Inv openFor s) (hquiet : ∀ r, ¬ Probes s r) {u : Int} (hu : s.breaker.openUntil = some u) (hnow : u ≤ s.now) :
    Inv openFor ({ s with breaker := { s.breaker with probing := true } }.put r
      { replica := true, probe := true, trips := s.trips, stage := .querying }) := by
  have hold : ∀ r' x', r' ≠ r → ({ s with breaker := { s.breaker with probing := true } }.put r
      { replica := true, probe := true, trips := s.trips, stage := .querying }).reads r' = some x' → s.reads r' = some x' := by
    intro r' x' hne hx'
    rwa [reads_put, if_neg hne] at hx'
  have honly : ∀ r', Probes ({ s with breaker := { s.breaker with probing := true } }.put r
      { replica := true, probe := true, trips := s.trips, stage := .querying }) r' → r' = r := by
    rintro r' ⟨x', hx', hprobes⟩
    by_contra hne
    exact hquiet r' ⟨x', hold r' x' hne hx', hprobes⟩
  refine ⟨h.tripped, fun r' x' hx' hstage hprobe => ?_, fun r' r'' h' h'' => (honly r' h').trans (honly r'' h'').symm, fun r' x' hx' => ?_⟩
  · obtain rfl := honly r' ⟨x', hx', hstage, hprobe⟩
    rw [reads_put, if_pos rfl] at hx'
    cases hx'
    exact ⟨rfl, rfl, u, hu, hnow⟩
  · by_cases hr : r' = r
    · rw [hr, reads_put, if_pos rfl] at hx'
      cases hx'
      simp
    · exact h.primary r' x' (hold r' x' hr hx')

theorem Inv.enter (h : Inv openFor s) (r : R) : Inv openFor (s.enter r) := by
  unfold DB.enter
  split
  · exact h.put_idle (fun hstage => Stage.noConfusion hstage) (by simp)
  · split
    · rename_i hallow
      rcases allow_cases hallow with ⟨hclosed, hsame⟩ | ⟨u, hu, hnow, hprobing, hset⟩
      · rw [hsame, hclosed]
        exact Inv.put_idle (s := { s with breaker := s.breaker }) h (fun _ => rfl) (by simp)
      · have hquiet : ∀ r', ¬ Probes s r' := by
          rintro r' ⟨x, hx, hstage, hprobe⟩
          obtain ⟨-, hset', -⟩ := h.probing r' x hx hstage hprobe
          rw [hprobing] at hset'
          cases hset'
        have hprobe : s.breaker.openUntil.isSome = true := by rw [hu]; rfl
        rw [hset, hprobe]
        exact h.put_probe hquiet hu hnow
    · exact h.put_idle (fun hstage => Stage.noConfusion hstage) (by simp)

/-- A query on the replica ends. -/
theorem Inv.conclude (h : Inv openFor s) {x : Read} (hx : s.reads r = some x) {o : Outcome}
    (htimely : Timely s (.outcome r o)) : Inv openFor (s.conclude openFor r x o) := by
  have hprimary := h.primary r x hx
  -- the probes that stay are those of other reads
  have hothers : ∀ {y : Read}, y.stage ≠ .querying → ∀ r', Probes (s.put r y) r' → r' ≠ r ∧ Probes s r' := by
    rintro y hy r' ⟨x', hx', hstage', hprobe'⟩
    rw [reads_put] at hx'
    split at hx'
    · cases hx'
      exact absurd hstage' hy
    · rename_i hne
      exact ⟨hne, x', hx', hstage', hprobe'⟩
  cases o with
  | cancelled => exact h.put_idle (fun hstage' => Stage.noConfusion hstage') hprimary
  | transient =>
    have hput : Inv openFor (s.put r { x with failed := true, primary := true, stage := .fallback }) :=
      h.put_idle (fun hstage' => Stage.noConfusion hstage') (by simp)
    refine hput.of_quiet rfl (fun r' hr' => ?_) fun t ht => ?_
    · obtain ⟨hne, hprobes⟩ := hothers Stage.noConfusion r' hr'
      exact hne (htimely r' hprobes)
    · cases ht
      rfl
  | answered =>
    have hput : Inv openFor (s.put r { x with stage := .ending }) := h.put_idle (fun hstage' => Stage.noConfusion hstage') hprimary
    refine hput.of_quiet rfl (fun r' hr' => ?_) fun t ht => ?_
    · obtain ⟨hne, hprobes⟩ := hothers Stage.noConfusion r' hr'
      rcases htimely with hclosed | hprobe
      · exact not_probes_closed h hclosed r' hprobes
      · exact hne (h.single r' r hprobes hprobe)
    · have hnone : (s.conclude openFor r x .answered).tripped = none := by
        show (if x.probe ∧ x.trips = s.trips then none else s.tripped) = none
        rcases htimely with hclosed | ⟨x', hx', hstage', hprobe'⟩
        · rw [not_tripped_closed h hclosed, ite_self]
        · rw [hx] at hx'
          cases hx'
          exact if_pos ⟨hprobe', (h.probing r x hx hstage' hprobe').1⟩
      rw [hnone] at ht
      cases ht

theorem Inv.step (h : Inv openFor s) {e : Event R} (htimely : Timely s e) (hs : s.step openFor e = some s') : Inv openFor s' := by
  cases e with
  | start r =>
    rw [DB.step] at hs
    split at hs
    · cases hs
      exact h.enter r
    · cases hs
  | outcome r o =>
    obtain ⟨x, hx, -, rfl⟩ := within_some hs
    exact h.conclude hx htimely
  | finish r =>
    obtain ⟨x, hx, -, rfl⟩ := within_some hs
    exact h.put_idle (fun hstage => Stage.noConfusion hstage) (h.primary r x hx)
  | release r =>
    obtain ⟨x, hx, -, rfl⟩ := within_some hs
    have hquiet : Inv openFor { s with breaker := s.breaker.release } := h.of_quiet rfl htimely h.tripped
    exact hquiet.put_idle (fun hstage => Stage.noConfusion hstage) (h.primary r x hx)
  | pass d =>
    cases hs
    refine ⟨h.tripped, fun r x hx hstage hprobe => ?_, h.single, h.primary⟩
    obtain ⟨htrips, hprobing, u, hu, hnow⟩ := h.probing r x hx hstage hprobe
    exact ⟨htrips, hprobing, u, hu, le_trans hnow (Int.le_add_of_nonneg_right (Int.natCast_nonneg d))⟩
  | attach =>
    cases hs
    exact ⟨h.tripped, h.probing, h.single, h.primary⟩
  | attached =>
    cases hs
    refine h.of_quiet rfl (not_probes_closed h htimely) fun t ht => ?_
    have hnone : s.tripped = some t := ht
    rw [not_tripped_closed h htimely] at hnone
    cases hnone

omit [DecidableEq R] in
theorem inv_start (replica : Bool) (now : Int) : Inv openFor ({ replica, now } : DB R) := by
  refine ⟨fun t ht => ?_, fun r x hx => ?_, fun r r' hr => ?_, fun r x hx => ?_⟩
  · cases ht
  · cases hx
  · obtain ⟨x, hx, -⟩ := hr
    cases hx
  · cases hx

end runs

/-! ## Endless runs -/

/-- An endless run in which every read comes to its end, time has no bound, and reads keep coming. -/
structure Endless {R : Type} [DecidableEq R] (openFor : Int) (σ : Nat → DB R) (e : Nat → Event R) : Prop where
  start : ∃ replica now, σ 0 = { replica, now }
  step : ∀ n, (σ n).step openFor (e n) = some (σ (n + 1))
  querying : ∀ n r x, (σ n).reads r = some x → x.stage = .querying → ∃ m, n ≤ m ∧ ∃ o, e m = .outcome r o
  fallback : ∀ n r x, (σ n).reads r = some x → x.stage = .fallback → ∃ m, n ≤ m ∧ e m = .finish r
  ending : ∀ n r x, (σ n).reads r = some x → x.stage = .ending → ∃ m, n ≤ m ∧ e m = .release r
  clock : ∀ t n, ∃ m, n ≤ m ∧ t ≤ (σ m).now
  reads : ∀ n, ∃ m, n ≤ m ∧ ∃ r, e m = .start r

section endless

variable {R : Type} [DecidableEq R] {openFor : Int} {s s' : DB R} {e : Event R}

/-- A read is let through whose query now runs. -/
def Admits (e : Event R) (s' : DB R) : Prop := ∃ r x, e = .start r ∧ s'.reads r = some x ∧ x.stage = .querying

/-- What a step does to the breaker and the clock, where no query fails. -/
theorem step_breaker (hs : s.step openFor e = some s') (hanswers : ∀ r, e ≠ .outcome r .transient) :
    (s'.breaker.openUntil = none ∨ s'.breaker.openUntil = s.breaker.openUntil) ∧ s.now ≤ s'.now ∧
    (s'.breaker.probing = true → s.breaker.probing = true ∨ Admits e s') := by
  cases e with
  | start r =>
    rw [DB.step] at hs
    split at hs
    · cases hs
      unfold DB.enter
      split
      · exact ⟨.inr rfl, le_rfl, .inl⟩
      · split
        · rename_i hallow
          refine ⟨.inr ?_, le_rfl, fun _ => .inr ⟨r, _, rfl, (reads_put _ r r _).trans (if_pos rfl), rfl⟩⟩
          show (s.breaker.Allow s.now).2.openUntil = s.breaker.openUntil
          rcases allow_cases hallow with ⟨-, hsame⟩ | ⟨u, -, -, -, hset⟩
          · rw [hsame]
          · rw [hset]
        · exact ⟨.inr rfl, le_rfl, .inl⟩
    · cases hs
  | outcome r o =>
    obtain ⟨x, -, -, rfl⟩ := within_some hs
    cases o with
    | answered => exact ⟨.inl rfl, le_rfl, fun h => absurd h Bool.false_ne_true⟩
    | transient => exact absurd rfl (hanswers r)
    | cancelled => exact ⟨.inr rfl, le_rfl, .inl⟩
  | finish r =>
    obtain ⟨x, -, -, rfl⟩ := within_some hs
    exact ⟨.inr rfl, le_rfl, .inl⟩
  | release r =>
    obtain ⟨x, -, -, rfl⟩ := within_some hs
    exact ⟨.inr rfl, le_rfl, fun h => absurd h Bool.false_ne_true⟩
  | pass d =>
    cases hs
    exact ⟨.inr rfl, Int.le_add_of_nonneg_right (Int.natCast_nonneg d), .inl⟩
  | attach =>
    cases hs
    exact ⟨.inr rfl, le_rfl, .inl⟩
  | attached =>
    cases hs
    exact ⟨.inl rfl, le_rfl, fun h => absurd h Bool.false_ne_true⟩

/-- Where the breaker waits for a probe, a read is under way that will release it. -/
def Held (s : DB R) : Prop := s.breaker.probing = true → ∃ r x, s.reads r = some x ∧ x.stage ≠ .returned

theorem held_put {x : Read} {r : R} (hx : x.stage ≠ .returned) : Held (s.put r x) :=
  fun _ => ⟨r, x, (reads_put s r r x).trans (if_pos rfl), hx⟩

theorem Held.step (h : Held s) (hs : s.step openFor e = some s') : Held s' := by
  cases e with
  | start r =>
    rw [DB.step] at hs
    split at hs
    · rename_i hfresh
      cases hs
      have hrefused : ∀ x : Read, Held (s.put r x) := by
        intro x hprobing
        obtain ⟨r', x', hx', hstage⟩ := h hprobing
        refine ⟨r', x', (reads_put s r r' x).trans ((if_neg ?_).trans hx'), hstage⟩
        rintro rfl
        rw [hfresh] at hx'
        cases hx'
      unfold DB.enter
      split
      · exact hrefused _
      · split
        · exact held_put Stage.noConfusion
        · exact hrefused _
    · cases hs
  | outcome r o =>
    obtain ⟨x, -, -, rfl⟩ := within_some hs
    cases o with
    | _ => exact held_put Stage.noConfusion
  | finish r =>
    obtain ⟨x, -, -, rfl⟩ := within_some hs
    exact held_put Stage.noConfusion
  | release r =>
    obtain ⟨x, -, -, rfl⟩ := within_some hs
    exact fun hprobing => absurd hprobing Bool.false_ne_true
  | pass d =>
    cases hs
    exact h
  | attach =>
    cases hs
    exact h
  | attached =>
    cases hs
    exact fun hprobing => absurd hprobing Bool.false_ne_true

/-- A read is let through that finds the replica, its time come and no probe under way. -/
theorem admits_of_ready {r : R} {u : Int} (hs : s.step openFor (.start r) = some s') (hreplica : s.replica = true)
    (hu : s.breaker.openUntil = some u) (hnow : u ≤ s.now) (hprobing : s.breaker.probing = false) : Admits (.start r) s' := by
  have hallow : (s.breaker.Allow s.now).1 = true := by
    rw [Breaker.Allow, hu]
    simp [not_lt.2 hnow, hprobing]
  rw [DB.step] at hs
  split at hs
  · cases hs
    rw [DB.enter, if_neg (by rw [hreplica]; exact Bool.noConfusion), if_pos hallow]
    exact ⟨r, _, rfl, (reads_put _ r r _).trans (if_pos rfl), rfl⟩
  · cases hs

section closes

variable {σ : Nat → DB R} {es : Nat → Event R} {N : Nat}

/-- From some time on the replica is there and answers. -/
def Answers (σ : Nat → DB R) (es : Nat → Event R) (N : Nat) : Prop :=
  ∀ n, N ≤ n → (σ n).replica = true ∧ ∀ r o, es n = .outcome r o → o = .answered

theorem Endless.breaker (h : Endless openFor σ es) (hanswers : Answers σ es N) {n : Nat} (hn : N ≤ n) :
    ((σ (n + 1)).breaker.openUntil = none ∨ (σ (n + 1)).breaker.openUntil = (σ n).breaker.openUntil) ∧ (σ n).now ≤ (σ (n + 1)).now ∧
    ((σ (n + 1)).breaker.probing = true → (σ n).breaker.probing = true ∨ Admits (es n) (σ (n + 1))) :=
  step_breaker (h.step n) fun r he => Outcome.noConfusion ((hanswers n hn).2 r _ he)

theorem Endless.held (h : Endless openFor σ es) (n : Nat) : Held (σ n) := by
  induction n with
  | zero =>
    obtain ⟨replica, now, hstart⟩ := h.start
    rw [hstart]
    exact fun hprobing => absurd hprobing Bool.false_ne_true
  | succ n ih => exact ih.step (h.step n)

theorem Endless.closed_stays (h : Endless openFor σ es) (hanswers : Answers σ es N) {n m : Nat} (hn : N ≤ n)
    (hclosed : (σ n).breaker.openUntil = none) (hm : n ≤ m) : (σ m).breaker.openUntil = none := by
  induction m, hm using Nat.le_induction with
  | base => exact hclosed
  | succ m hm ih =>
    rcases (h.breaker hanswers (hn.trans hm)).1 with hnone | hsame
    · exact hnone
    · exact hsame.trans ih

/-- A read that is under way releases the breaker, unless its query runs. -/
theorem Endless.released (h : Endless openFor σ es) {n : Nat} (hquery : ∀ r x, (σ n).reads r = some x → x.stage ≠ .querying) :
    ∃ m, n ≤ m ∧ (σ m).breaker.probing = false := by
  have hending : ∀ k r x, (σ k).reads r = some x → x.stage = .ending → ∃ m, k ≤ m ∧ (σ m).breaker.probing = false := by
    intro k r x hx hstage
    obtain ⟨m, hm, he⟩ := h.ending k r x hx hstage
    have hs := h.step m
    rw [he] at hs
    obtain ⟨y, -, -, hy⟩ := within_some hs
    exact ⟨m + 1, hm.trans (Nat.le_succ m), by rw [hy]; rfl⟩
  cases hprobing : (σ n).breaker.probing with
  | false => exact ⟨n, le_rfl, hprobing⟩
  | true =>
    obtain ⟨r, x, hx, hover⟩ := h.held n hprobing
    cases hstage : x.stage with
    | querying => exact absurd hstage (hquery r x hx)
    | ending => exact hending n r x hx hstage
    | returned => exact absurd hstage hover
    | fallback =>
      obtain ⟨k, hk, he⟩ := h.fallback n r x hx hstage
      have hs := h.step k
      rw [he] at hs
      obtain ⟨y, -, -, hy⟩ := within_some hs
      have hread : (σ (k + 1)).reads r = some { y with stage := .ending } := by
        rw [hy]
        exact (reads_put _ r r _).trans (if_pos rfl)
      obtain ⟨m, hm, hreleased⟩ := hending (k + 1) r _ hread rfl
      exact ⟨m, (hk.trans (Nat.le_succ k)).trans hm, hreleased⟩

/-- Once the replica answers, the breaker closes. -/
theorem Endless.closes (h : Endless openFor σ es) (hanswers : Answers σ es N) : ∃ n, N ≤ n ∧ (σ n).breaker.openUntil = none := by
  by_contra hnever
  have hopen : ∀ n, N ≤ n → (σ n).breaker.openUntil ≠ none := fun n hn hnone => hnever ⟨n, hn, hnone⟩
  have hconst : ∀ n, N ≤ n → (σ n).breaker.openUntil = (σ N).breaker.openUntil := by
    intro n hn
    induction n, hn using Nat.le_induction with
    | base => rfl
    | succ n hn ih =>
      rcases (h.breaker hanswers hn).1 with hnone | hsame
      · exact absurd hnone (hopen (n + 1) (hn.trans (Nat.le_succ n)))
      · exact hsame.trans ih
  -- a query that runs would end with an answer and close the breaker
  have hquery : ∀ n, N ≤ n → ∀ r x, (σ n).reads r = some x → x.stage ≠ .querying := by
    intro n hn r x hx hstage
    obtain ⟨m, hm, o, he⟩ := h.querying n r x hx hstage
    obtain rfl := (hanswers m (hn.trans hm)).2 r o he
    have hs := h.step m
    rw [he] at hs
    obtain ⟨y, -, -, hy⟩ := within_some hs
    exact hopen (m + 1) ((hn.trans hm).trans (Nat.le_succ m)) (by rw [hy]; rfl)
  obtain ⟨u, hu⟩ := Option.ne_none_iff_exists'.1 (hopen N le_rfl)
  have hmono : ∀ n m, N ≤ n → n ≤ m → (σ n).now ≤ (σ m).now := by
    intro n m hn hm
    induction m, hm using Nat.le_induction with
    | base => exact le_rfl
    | succ m hm ih => exact ih.trans (h.breaker hanswers (hn.trans hm)).2.1
  obtain ⟨k, hNk, hk⟩ := h.clock u N
  obtain ⟨m₀, hm₀, hfree⟩ := h.released (hquery k hNk)
  have hN : ∀ m, m₀ ≤ m → N ≤ m := fun m hm => (hNk.trans hm₀).trans hm
  have hidle : ∀ m, m₀ ≤ m → (σ m).breaker.probing = false := by
    intro m hm
    induction m, hm using Nat.le_induction with
    | base => exact hfree
    | succ m hm ih =>
      refine Bool.eq_false_iff.2 fun hprobing => ?_
      rcases (h.breaker hanswers (hN m hm)).2.2 hprobing with hbefore | ⟨r, x, -, hx, hstage⟩
      · rw [ih] at hbefore
        exact Bool.false_ne_true hbefore
      · exact hquery (m + 1) (hN (m + 1) (hm.trans (Nat.le_succ m))) r x hx hstage
  obtain ⟨m, hm, r, he⟩ := h.reads m₀
  have hs := h.step m
  rw [he] at hs
  obtain ⟨r', x, -, hx, hstage⟩ := admits_of_ready hs (hanswers m (hN m hm)).1 ((hconst m (hN m hm)).trans hu)
    (hk.trans (hmono k m hNk (hm₀.trans hm))) (hidle m hm)
  exact hquery (m + 1) (hN (m + 1) (hm.trans (Nat.le_succ m))) r' x hx hstage

end closes

end endless

/-- In every run whose steps are timely the breaker keeps reads away after a trip, lets one probe through, and a read uses the
primary exactly if the replica is absent, refused or failed. In every endless run the breaker closes for good once the replica
answers. -/
theorem replica_breaker {R : Type} [DecidableEq R] (openFor : Int) :
    (∀ (replica : Bool) (now : Int) (es : List (Event R)) (s : DB R),
      Trace (fun s e => s.step openFor e) Timely { replica, now } es s → Guarded openFor s) ∧
    ∀ (σ : Nat → DB R) (es : Nat → Event R) (N : Nat), Endless openFor σ es → Answers σ es N →
      ∃ n, ∀ m, n ≤ m → (σ m).breaker.openUntil = none ∧
        ∀ r x, es m = .start r → (σ (m + 1)).reads r = some x → x.replica = true := by
  constructor
  · intro replica now es s h
    refine Inv.guarded (h.invariant (P := fun _ s => Inv openFor s) (inv_start replica now) ?_)
    intro es e s s' _ hinv htimely hs
    exact hinv.step htimely hs
  · intro σ es N h hanswers
    obtain ⟨n, hn, hclosed⟩ := h.closes hanswers
    refine ⟨n, fun m hm => ?_⟩
    have hopen := h.closed_stays hanswers hn hclosed hm
    refine ⟨hopen, fun r x he hx => ?_⟩
    have hs := h.step m
    rw [he, DB.step] at hs
    split at hs
    · have hallow : ((σ m).breaker.Allow (σ m).now).1 = true := by rw [Breaker.Allow, hopen]
      rw [← Option.some.inj hs, DB.enter, if_neg (by rw [(hanswers m (hn.trans hm)).1]; exact Bool.noConfusion), if_pos hallow,
        reads_put, if_pos rfl] at hx
      cases hx
      rfl
    · cases hs

/-! ## Runs that meet the conditions -/

/-- A read that used the replica. -/
def served (stage : Stage) : Read := { replica := true, trips := 0, stage }

/-- So many reads have been served, one every moment. -/
def idle (k : Nat) : DB Nat :=
  { replica := true, now := k, reads := fun r => if r < k then some (served .returned) else none }

/-- The next read is in the stage. -/
def serving (k : Nat) (stage : Stage) : DB Nat := (idle k).put k (served stage)

def states (n : Nat) : DB Nat :=
  if n % 4 = 0 then idle (n / 4) else if n % 4 = 1 then serving (n / 4) .querying
  else if n % 4 = 2 then serving (n / 4) .ending else serving (n / 4) .returned

def events (n : Nat) : Event Nat :=
  if n % 4 = 0 then .start (n / 4) else if n % 4 = 1 then .outcome (n / 4) .answered
  else if n % 4 = 2 then .release (n / 4) else .pass 1

theorem reads_idle {k r : Nat} {x : Read} (h : (idle k).reads r = some x) : x.stage = .returned := by
  unfold idle at h
  simp only at h
  split at h
  · cases h
    rfl
  · cases h

/-- Where a read is under way, it is the next one in its stage. -/
theorem reads_states {n r : Nat} {x : Read} (h : (states n).reads r = some x) (hstage : x.stage ≠ .returned) :
    n % 4 = 1 ∧ x.stage = .querying ∧ r = n / 4 ∨ n % 4 = 2 ∧ x.stage = .ending ∧ r = n / 4 := by
  have hserving : ∀ stage, (serving (n / 4) stage).reads r = some x → x.stage = stage ∧ r = n / 4 := by
    intro stage hx
    rw [serving, reads_put] at hx
    split at hx
    · cases hx
      exact ⟨rfl, ‹_›⟩
    · exact absurd (reads_idle hx) hstage
  unfold states at h
  split at h
  · exact absurd (reads_idle h) hstage
  · split at h
    · exact .inl ⟨‹_›, hserving _ h⟩
    · split at h
      · exact .inr ⟨‹_›, hserving _ h⟩
      · exact absurd (hserving _ h).1 hstage

theorem start_idle (openFor : Int) (k : Nat) : (idle k).step openFor (.start k) = some (serving k .querying) := by
  have hfresh : (idle k).reads k = none := if_neg (lt_irrefl k)
  rw [DB.step, if_pos hfresh]
  rfl

theorem put_serving (k : Nat) (stage stage' : Stage) : (serving k stage).put k (served stage') = serving k stage' := by
  unfold serving DB.put
  rw [Function.update_idem]

theorem within_serving (k : Nat) (stage : Stage) (next : Read → DB Nat) : (serving k stage).within k stage next = some (next (served stage)) := by
  have hread : (serving k stage).reads k = some (served stage) := (reads_put _ k k _).trans (if_pos rfl)
  have hstage : decide ((served stage).stage = stage) = true := decide_eq_true rfl
  rw [DB.within, hread, Option.filter_some, if_pos hstage]
  rfl

theorem pass_serving (k : Nat) : { serving k .returned with now := (serving k .returned).now + (1 : Nat) } = idle (k + 1) := by
  have hreads : (serving k .returned).reads = (idle (k + 1)).reads := by
    funext r
    rw [serving, reads_put]
    show (if r = k then some (served .returned) else if r < k then some (served .returned) else none) =
      if r < k + 1 then some (served .returned) else none
    split
    · rw [if_pos (by omega)]
    · split
      · rw [if_pos (by omega)]
      · rw [if_neg (by omega)]
  show ({ idle (k + 1) with reads := (serving k .returned).reads } : DB Nat) = idle (k + 1)
  rw [hreads]

theorem step_states (openFor : Int) (n : Nat) : (states n).step openFor (events n) = some (states (n + 1)) := by
  have hcases : n % 4 = 0 ∨ n % 4 = 1 ∨ n % 4 = 2 ∨ n % 4 = 3 := by omega
  unfold states events
  rcases hcases with h | h | h | h
  · have hnext : (n + 1) % 4 = 1 ∧ (n + 1) / 4 = n / 4 := by omega
    simp only [h, hnext, ↓reduceIte, Nat.one_ne_zero]
    exact start_idle openFor (n / 4)
  · have hnext : (n + 1) % 4 = 2 ∧ (n + 1) / 4 = n / 4 := by omega
    simp only [h, hnext, ↓reduceIte, Nat.one_ne_zero, Nat.reduceEqDiff]
    rw [DB.step, within_serving]
    exact congrArg some (put_serving _ _ _)
  · have hnext : (n + 1) % 4 = 3 ∧ (n + 1) / 4 = n / 4 := by omega
    simp only [h, hnext, ↓reduceIte, Nat.reduceEqDiff]
    rw [DB.step, within_serving]
    exact congrArg some (put_serving _ _ _)
  · have hnext : (n + 1) % 4 = 0 ∧ (n + 1) / 4 = n / 4 + 1 := by omega
    simp only [h, hnext, ↓reduceIte, Nat.reduceEqDiff]
    rw [DB.step]
    exact congrArg some (pass_serving _)

theorem endless_states (openFor : Int) : Endless openFor states events := by
  refine ⟨⟨true, 0, rfl⟩, step_states openFor, ?_, ?_, ?_, fun t n => ?_, fun n => ?_⟩
  · intro n r x hx hstage
    rcases reads_states hx (by rw [hstage]; exact Stage.noConfusion) with ⟨hn, -, rfl⟩ | ⟨-, hending, -⟩
    · exact ⟨n, le_rfl, .answered, by simp [events, hn]⟩
    · rw [hstage] at hending
      cases hending
  · intro n r x hx hstage
    rcases reads_states hx (by rw [hstage]; exact Stage.noConfusion) with ⟨-, hother, -⟩ | ⟨-, hother, -⟩
    · rw [hstage] at hother
      cases hother
    · rw [hstage] at hother
      cases hother
  · intro n r x hx hstage
    rcases reads_states hx (by rw [hstage]; exact Stage.noConfusion) with ⟨-, hother, -⟩ | ⟨hn, -, rfl⟩
    · rw [hstage] at hother
      cases hother
    · exact ⟨n, le_rfl, by simp [events, hn]⟩
  · refine ⟨4 * (n + t.toNat), by omega, ?_⟩
    have hnow : (states (4 * (n + t.toNat))).now = (n + t.toNat : Nat) := by simp [states, idle]
    rw [hnow]
    omega
  · refine ⟨4 * n, by omega, n, by simp [events]⟩

theorem answers_states : Answers states events 0 := by
  intro n _
  refine ⟨?_, fun r o he => ?_⟩
  · unfold states
    split
    · rfl
    · split
      · rfl
      · split <;> rfl
  · unfold events at he
    split at he
    · cases he
    · split at he
      · cases he
        rfl
      · split at he
        · cases he
        · cases he

theorem not_probes_put {s : DB Nat} {r : Nat} {x : Read} (hx : x.probe = false) (hs : ∀ r', r' ≠ r → s.reads r' = none) (r' : Nat) :
    ¬ Probes (s.put r x) r' := by
  rintro ⟨y, hy, -, hprobe⟩
  rw [reads_put] at hy
  split at hy
  · cases hy
    rw [hx] at hprobe
    cases hprobe
  · rename_i hne
    rw [hs r' hne] at hy
    cases hy

/-- A read fails and trips the breaker, and a probe succeeds when its time has come; and an endless run of reads one after the
other. -/
theorem breaker_closed : (∃ s : DB Nat, Guarded 5 s ∧ s.breaker.openUntil = none ∧ s.trips = 1) ∧
    ∃ n, ∀ m, n ≤ m → (states m).breaker.openUntil = none ∧
      ∀ r x, events m = .start r → (states (m + 1)).reads r = some x → x.replica = true := by
  constructor
  · have h₁ : Trace (fun (s : DB Nat) e => s.step 5 e) Timely { replica := true, now := 0 } ([] ++ [.start 0]) _ :=
      Trace.start.next trivial rfl
    have h₂ := h₁.next (e := Event.outcome 0 .transient) (fun r hr => absurd hr (not_probes_put rfl (fun _ _ => rfl) r)) rfl
    have h₃ := h₂.next (e := Event.finish 0) trivial rfl
    have h₄ := h₃.next (e := Event.release 0) (not_probes_put rfl fun r hr => by
      simp [DB.put, DB.conclude, DB.enter, Breaker.Allow, Function.update_of_ne hr]) rfl
    have h₅ := (h₄.next (e := Event.pass 5) trivial rfl).next (e := Event.start 1) trivial rfl
    have h₆ := h₅.next (e := Event.outcome 1 .answered) (.inr ⟨_, rfl, rfl, rfl⟩) rfl
    exact ⟨_, (replica_breaker 5).1 true 0 _ _ h₆, rfl, rfl⟩
  · exact (replica_breaker 5).2 states events 0 (endless_states 5) answers_states

/-- A query that began before the trip ends with an answer, and the next read is let through at once. -/
theorem stale_answer : ¬ ∀ (openFor : Int) (replica : Bool) (now : Int) (es : List (Event Nat)) (s : DB Nat),
    Trace (fun s e => s.step openFor e) (fun _ _ => True) { replica, now } es s → Guarded openFor s := by
  intro h
  have hrun : Trace (fun (s : DB Nat) e => s.step 5 e) (fun _ _ => True) { replica := true, now := 0 }
      [.start 0, .start 1, .outcome 1 .transient, .outcome 0 .answered] _ := Trace.play (fun _ _ => trivial) rfl
  exact absurd ((h 5 true 0 _ _ hrun).avoids 2 _ _ rfl rfl rfl 0 rfl) (by decide)

end Ploykit.Pg

import Mathlib.Algebra.Group.Int.Defs
import Mathlib.Data.Int.Order.Basic
import Mathlib.Data.List.Induction

/-!
# The limiter in memory

`platform/webx/ratelimit_memory.go`. A time is a number of nanoseconds since the zero
time, and calls take the lock in the order of a list.
-/

namespace Ploykit.Webx.Limiter

def minute : Int := 60 * 10 ^ 9

/-- The difference of two times, held within 64 bits. -/
def sub (t u : Int) : Int := max (-2 ^ 63) (min (2 ^ 63 - 1) (t - u))

variable {K : Type} [DecidableEq K]

structure MemoryLimiter (K : Type) where
  windows : K → Option (List Int) := fun _ => none
  lastSweep : Int := 0

namespace MemoryLimiter

/-- The hits of a key, none where there is no entry. -/
def hits (m : MemoryLimiter K) (key : K) : List Int := (m.windows key).getD []

def setHits (m : MemoryLimiter K) (key : K) (hits : List Int) : MemoryLimiter K :=
  { m with windows := fun k => if k = key then some hits else m.windows k }

def sweepLocked (m : MemoryLimiter K) (windowStart : Int) : MemoryLimiter K :=
  { m with windows := fun k => (m.windows k).filter fun hits => hits.any (windowStart < ·) }

/-- A call after the sweep. -/
def checkSwept (m : MemoryLimiter K) (key : K) (perMinute : Int) (now : Int) : (Bool × Int) × MemoryLimiter K :=
  let hits := (m.hits key).filter (now - minute < ·)
  if perMinute ≤ hits.length then
    let retry := minute - sub now (hits.headD 0)
    ((false, if retry < 0 then 0 else retry), m.setHits key hits)
  else ((true, 0), m.setHits key (hits ++ [now]))

def Allow (m : MemoryLimiter K) (key : K) (perMinute : Int) (now : Int) : (Bool × Int) × MemoryLimiter K :=
  if perMinute ≤ 0 then ((true, 0), m)
  else if minute < sub now m.lastSweep then { m.sweepLocked (now - minute) with lastSweep := now }.checkSwept key perMinute now
  else m.checkSwept key perMinute now

end MemoryLimiter

/-! ## Calls -/

structure Call (K : Type) where
  key : K
  now : Int

/-- A call with what it was answered. -/
abbrev Entry (K : Type) := Call K × Bool × Int

abbrev Allowing (K : Type) := MemoryLimiter K → K → Int → Int → (Bool × Int) × MemoryLimiter K

/-- Calls one after the other, with their answers. -/
def run (allow : Allowing K) (limit : K → Int) (calls : List (Call K)) : List (Entry K) × MemoryLimiter K :=
  calls.foldl (fun s c => (s.1 ++ [(c, (allow s.2 c.key (limit c.key) c.now).1)], (allow s.2 c.key (limit c.key) c.now).2)) ([], {})

/-- The times at which a key was allowed. -/
def allowed (key : K) (log : List (Entry K)) : List Int :=
  (log.filter fun e => e.1.key = key ∧ e.2.1 = true).map fun e => e.1.now

def since (start : Int) (times : List Int) : List Int := times.filter (start < ·)

/-! ## The sliding window -/

/-- What is answered where these are the allowed times of the preceding minute. -/
def verdict (recent : List Int) (limit : Int) (now : Int) : Bool × Int :=
  if limit ≤ recent.length then
    (false, if minute - sub now (recent.headD 0) < 0 then 0 else minute - sub now (recent.headD 0))
  else (true, 0)

/-- Each call is judged by the calls of its key that were allowed in the preceding minute. -/
def verdicts (limit : K → Int) (calls : List (Call K)) : List (Entry K) :=
  calls.foldl (fun log c => log ++ [(c, verdict (since (c.now - minute) (allowed c.key log)) (limit c.key) c.now)]) []

section window

variable {limit : K → Int} {calls : List (Call K)} {c : Call K} {key : K} {log : List (Entry K)} {s t : Int} {times : List Int}

theorem since_since (h : s ≤ t) : since t (since s times) = since t times := by
  rw [since, since, List.filter_filter]
  refine List.filter_congr fun u _ => ?_
  simpa using fun htu : t < u => lt_of_le_of_lt h htu

theorem since_append (times' : List Int) : since s (times ++ times') = since s times ++ since s times' := List.filter_append ..

theorem allowed_concat (e : Entry K) :
    allowed key (log ++ [e]) = allowed key log ++ if e.1.key = key ∧ e.2.1 = true then [e.1.now] else [] := by
  rw [allowed, List.filter_append, List.map_append]
  congr 1
  by_cases he : e.1.key = key ∧ e.2.1 = true
  · simp [he]
  · simp [he]

theorem verdicts_concat (c : Call K) : verdicts limit (calls ++ [c]) =
    verdicts limit calls ++ [(c, verdict (since (c.now - minute) (allowed c.key (verdicts limit calls))) (limit c.key) c.now)] := by
  rw [verdicts, List.foldl_append]
  rfl

theorem verdict_ok {recent : List Int} {n : Int} {now : Int} : (verdict recent n now).1 = true ↔ recent.length < n := by
  unfold verdict
  split
  · rename_i h
    simpa using h
  · rename_i h
    simpa using h

theorem now_of_allowed (h : t ∈ allowed key (verdicts limit calls)) : ∃ c ∈ calls, c.now = t := by
  induction calls using List.reverseRecOn with
  | nil => cases h
  | append_singleton calls c ih =>
    rw [verdicts_concat, allowed_concat, List.mem_append] at h
    rcases h with h | h
    · obtain ⟨c', hc', ht⟩ := ih h
      exact ⟨c', List.mem_append_left _ hc', ht⟩
    · split at h
      · exact ⟨c, List.mem_append_right _ List.mem_cons_self, (List.mem_singleton.1 h).symm⟩
      · cases h

/-- The allowed calls of a key within a minute are no more than its limit. -/
theorem verdicts_limited (hpos : ∀ k, 0 < limit k) (hclock : calls.Pairwise (·.now ≤ ·.now)) (key : K) (start : Int) :
    ((allowed key (verdicts limit calls)).countP fun t => start < t ∧ t ≤ start + minute) ≤ limit key := by
  induction calls using List.reverseRecOn with
  | nil => exact le_of_lt (hpos key)
  | append_singleton calls c ih =>
    obtain ⟨hbefore, -, hlast⟩ := List.pairwise_append.1 hclock
    have hprev := ih hbefore
    rw [verdicts_concat, allowed_concat, List.countP_append]
    split
    · rename_i he
      obtain ⟨hkey, hok⟩ := he
      have hkey' : c.key = key := hkey
      subst hkey'
      by_cases hin : start < c.now ∧ c.now ≤ start + minute
      · have hrecent := verdict_ok.1 hok
        have hfewer : ((allowed c.key (verdicts limit calls)).countP fun t => start < t ∧ t ≤ start + minute) ≤
            (since (c.now - minute) (allowed c.key (verdicts limit calls))).length := by
          rw [since, ← List.countP_eq_length_filter]
          refine List.countP_mono_left fun t _ ht => ?_
          have ht' : start < t ∧ t ≤ start + minute := of_decide_eq_true ht
          have hlater : c.now - minute < t := by omega
          exact decide_eq_true hlater
        have hone : [c.now].countP (fun t => decide (start < t ∧ t ≤ start + minute)) = 1 := by simp [hin]
        rw [hone]
        omega
      · have hnone : [c.now].countP (fun t => decide (start < t ∧ t ≤ start + minute)) = 0 := by simpa using hin
        rw [hnone]
        exact hprev
    · exact hprev

/-- What was allowed in the minute up to a call that comes last. -/
theorem countP_recent (h : ∀ c' ∈ calls, c'.now ≤ t) (key : K) :
    ((allowed key (verdicts limit calls)).countP fun u => t - minute < u ∧ u ≤ t) =
      (since (t - minute) (allowed key (verdicts limit calls))).length := by
  rw [since, ← List.countP_eq_length_filter]
  refine List.countP_congr fun u hu => ?_
  obtain ⟨c', hc', rfl⟩ := now_of_allowed hu
  simp [h c' hc']

end window

/-! ## The limiter is the sliding window -/

/-- The answer is the verdict on the hits, and they change by an allowed call alone, as far as they are in the window. -/
structure Windowed (allow : Allowing K) : Prop where
  answer : ∀ m key n now, 0 < n → (allow m key n now).1 = verdict (since (now - minute) (m.hits key)) n now
  hits : ∀ m key n now k s, 0 < n → now - minute ≤ s →
    since s ((allow m key n now).2.hits k) = since s (m.hits k ++ if k = key ∧ (allow m key n now).1.1 = true then [now] else [])

section limiter

variable {limit : K → Int} {calls : List (Call K)} {m : MemoryLimiter K} {key k : K} {s start now : Int} {n : Int} {allow : Allowing K}

theorem hits_setHits (l : List Int) : (m.setHits key l).hits k = if k = key then l else m.hits k := by
  by_cases hk : k = key
  · simp [MemoryLimiter.setHits, MemoryLimiter.hits, hk]
  · simp [MemoryLimiter.setHits, MemoryLimiter.hits, hk]

omit [DecidableEq K] in
theorem since_sweepLocked (h : start ≤ s) : since s ((m.sweepLocked start).hits k) = since s (m.hits k) := by
  unfold MemoryLimiter.hits MemoryLimiter.sweepLocked
  cases hk : m.windows k with
  | none => simp [hk]
  | some l =>
    by_cases hany : l.any (start < ·) = true
    · simp [hk, Option.filter, hany]
    · have hcold : since s l = [] := by
        rw [since, List.filter_eq_nil_iff]
        intro t ht hlt
        exact hany (List.any_eq_true.2 ⟨t, ht, decide_eq_true (lt_of_le_of_lt h (of_decide_eq_true hlt))⟩)
      have hdropped : (some l).filter (fun hits => hits.any (start < ·)) = none := if_neg hany
      simp only [hk, hdropped]
      exact hcold.symm

theorem checkSwept_windowed : Windowed (K := K) MemoryLimiter.checkSwept where
  answer m key n now _ := by
    unfold MemoryLimiter.checkSwept verdict since
    dsimp only
    split
    · rfl
    · rfl
  hits m key n now k s _ h := by
    unfold MemoryLimiter.checkSwept
    dsimp only
    split
    · rw [hits_setHits]
      by_cases hk : k = key
      · subst hk
        rw [if_pos rfl, if_neg (by simp), List.append_nil]
        exact since_since h
      · simp [hk]
    · rw [hits_setHits]
      by_cases hk : k = key
      · subst hk
        have hkept := @since_since _ _ (m.hits k) h
        simp only [if_pos, true_and, since_append]
        exact congrArg (· ++ since s [now]) hkept
      · simp [hk]

theorem Allow_windowed : Windowed (K := K) MemoryLimiter.Allow where
  answer m key n now hn := by
    unfold MemoryLimiter.Allow
    rw [if_neg (not_le.2 hn)]
    split
    · rw [checkSwept_windowed.answer _ _ _ _ hn]
      exact congrArg (verdict · n now) (since_sweepLocked (m := m) le_rfl)
    · exact checkSwept_windowed.answer _ _ _ _ hn
  hits m key n now k s hn h := by
    unfold MemoryLimiter.Allow
    rw [if_neg (not_le.2 hn)]
    split
    · rw [checkSwept_windowed.hits _ _ _ _ _ _ hn h, since_append, since_append]
      exact congrArg (· ++ _) (since_sweepLocked (m := m) h)
    · exact checkSwept_windowed.hits _ _ _ _ _ _ hn h

omit [DecidableEq K] in
theorem run_concat (c : Call K) : run allow limit (calls ++ [c]) =
    ((run allow limit calls).1 ++ [(c, (allow (run allow limit calls).2 c.key (limit c.key) c.now).1)],
      (allow (run allow limit calls).2 c.key (limit c.key) c.now).2) := by
  rw [run, List.foldl_append]
  rfl

/-- Whatever follows the window answers as the window does. -/
theorem run_window (hallow : Windowed allow) (hpos : ∀ k, 0 < limit k) (hclock : calls.Pairwise (·.now ≤ ·.now)) :
    (run allow limit calls).1 = verdicts limit calls ∧
      ∀ k t s, (∀ c ∈ calls, c.now ≤ t) → t - minute ≤ s →
        since s ((run allow limit calls).2.hits k) = since s (allowed k (verdicts limit calls)) := by
  induction calls using List.reverseRecOn with
  | nil => exact ⟨rfl, fun _ _ _ _ _ => rfl⟩
  | append_singleton calls c ih =>
    obtain ⟨hbefore, -, hlast⟩ := List.pairwise_append.1 hclock
    obtain ⟨hlog, hhits⟩ := ih hbefore
    have hnow : ∀ c' ∈ calls, c'.now ≤ c.now := fun c' hc' => hlast c' hc' c List.mem_cons_self
    have hanswer := hallow.answer (run allow limit calls).2 c.key (limit c.key) c.now (hpos c.key)
    rw [hhits c.key c.now _ hnow le_rfl] at hanswer
    rw [run_concat, verdicts_concat, hlog, hanswer]
    refine ⟨rfl, fun k t s ht hs => ?_⟩
    have hct : c.now - minute ≤ s := le_trans (Int.sub_le_sub_right (ht c (List.mem_append_right _ List.mem_cons_self)) _) hs
    rw [hallow.hits _ _ _ _ _ _ (hpos c.key) hct, since_append, hhits k c.now s hnow hct, hanswer, allowed_concat, since_append]
    by_cases hk : c.key = k
    · simp [hk]
    · simp [hk, Ne.symm hk]

/-- A call of a key that has no more than its limit in the window waits for the first of them to leave it. -/
theorem retry_allowed (hpos : 0 < n) (hden : (verdict (since (now - minute) times) n now).1 = false)
    (hlen : (since (now - minute) times).length ≤ n) (htimes : ∀ t ∈ times, t ≤ now) :
    0 ≤ (verdict (since (now - minute) times) n now).2 ∧
      ((since (now + (verdict (since (now - minute) times) n now).2 - minute) (since (now - minute) times)).length < n ∧
        now - minute ≤ now + (verdict (since (now - minute) times) n now).2 - minute) := by
  have hfull : n ≤ (since (now - minute) times).length := by
    rw [← not_lt, ← verdict_ok, hden]
    exact Bool.false_ne_true
  cases hrecent : since (now - minute) times with
  | nil =>
    rw [hrecent] at hfull
    exact absurd hfull (not_le.2 hpos)
  | cons first rest =>
    have hfirst : first ∈ since (now - minute) times := hrecent ▸ List.mem_cons_self
    obtain ⟨hmem, hin⟩ := List.mem_filter.1 hfirst
    have hlower : now - minute < first := of_decide_eq_true hin
    have hupper := htimes first hmem
    have hsub : sub now first = now - first := by
      have hmin : minute = 60000000000 := rfl
      unfold sub
      omega
    rw [hrecent] at hfull hlen
    have hwait : (verdict (first :: rest) n now).2 = minute - (now - first) := by
      rw [verdict, if_pos hfull, List.headD_cons, hsub, if_neg (by omega)]
    rw [hwait]
    refine ⟨by omega, ?_, by omega⟩
    have hleft : since (now + (minute - (now - first)) - minute) (first :: rest) = since first rest := by
      have hstart : now + (minute - (now - first)) - minute = first := by omega
      rw [hstart, since, List.filter_cons_of_neg (by simp)]
      rfl
    have hrest : (since first rest).length ≤ rest.length := List.length_filter_le _ _
    rw [hleft]
    rw [List.length_cons] at hlen
    omega

end limiter

/-- The limiter is an exact sliding window: no more than the limit is allowed within a minute, a call is denied only where
that many were allowed in the minute before it, waiting as it is told lets it in, and sweeps change no answer. -/
theorem sliding_window (limit : K → Int) (hpos : ∀ k, 0 < limit k) (calls : List (Call K)) (hclock : calls.Pairwise (·.now ≤ ·.now)) :
    (∀ key start, ((allowed key (run MemoryLimiter.Allow limit calls).1).countP fun t => start < t ∧ t ≤ start + minute) ≤ limit key) ∧
    (∀ before c after, calls = before ++ c :: after →
      ∀ wait m, (run MemoryLimiter.Allow limit before).2.Allow c.key (limit c.key) c.now = ((false, wait), m) →
        limit c.key ≤ ((allowed c.key (run MemoryLimiter.Allow limit before).1).countP fun t => c.now - minute < t ∧ t ≤ c.now) ∧
        0 ≤ wait ∧ (m.Allow c.key (limit c.key) (c.now + wait)).1.1 = true) ∧
    (run MemoryLimiter.Allow limit calls).1 = (run MemoryLimiter.checkSwept limit calls).1 := by
  have hrun := (run_window Allow_windowed hpos hclock).1
  refine ⟨fun key start => ?_, fun before c after hcalls wait m hdenied => ?_, ?_⟩
  · rw [hrun]
    exact verdicts_limited hpos hclock key start
  · rw [hcalls] at hclock
    obtain ⟨hbefore, -, hlast⟩ := List.pairwise_append.1 hclock
    have hnow : ∀ c' ∈ before, c'.now ≤ c.now := fun c' hc' => hlast c' hc' c List.mem_cons_self
    obtain ⟨hlog, hhits⟩ := run_window Allow_windowed hpos hbefore
    have hanswer := Allow_windowed.answer (run MemoryLimiter.Allow limit before).2 c.key (limit c.key) c.now (hpos c.key)
    rw [hhits c.key c.now _ hnow le_rfl, hdenied] at hanswer
    have hcount := @countP_recent _ _ limit _ _ hnow c.key
    have hlimited : (since (c.now - minute) (allowed c.key (verdicts limit before))).length ≤ limit c.key := by
      have hle := verdicts_limited hpos hbefore c.key (c.now - minute)
      rw [Int.sub_add_cancel, hcount] at hle
      exact hle
    obtain ⟨hwait, hfewer, hlater⟩ := retry_allowed (hpos c.key) (by rw [← hanswer]) hlimited fun t ht => by
      obtain ⟨c', hc', rfl⟩ := now_of_allowed ht
      exact hnow c' hc'
    rw [← hanswer] at hwait hfewer hlater
    refine ⟨?_, hwait, ?_⟩
    · rw [hlog, hcount, ← not_lt, ← verdict_ok, ← hanswer]
      exact Bool.false_ne_true
    · have hafter := Allow_windowed.hits (run MemoryLimiter.Allow limit before).2 c.key (limit c.key) c.now c.key
        (c.now + wait - minute) (hpos c.key) hlater
      rw [hdenied, if_neg (by simp), List.append_nil, hhits c.key c.now _ hnow hlater] at hafter
      rw [Allow_windowed.answer _ _ _ _ (hpos c.key), verdict_ok, hafter]
      rw [since_since hlater] at hfewer
      exact hfewer
  · rw [hrun, (run_window checkSwept_windowed hpos hclock).1]

/-- The second call waits until the first has left the window. -/
theorem sliding_window_two : ((run MemoryLimiter.Allow (fun _ : Unit => 1) [⟨(), 0⟩, ⟨(), 5⟩]).1.map (·.2)) = [(true, 0), (false, minute - 5)] ∧
    (run MemoryLimiter.Allow (fun _ : Unit => 1) [⟨(), 0⟩, ⟨(), 5⟩]).1 = (run MemoryLimiter.checkSwept (fun _ => 1) [⟨(), 0⟩, ⟨(), 5⟩]).1 := by
  refine ⟨by decide, (sliding_window (fun _ : Unit => 1) (fun _ => by decide) [⟨(), 0⟩, ⟨(), 5⟩] ?_).2.2⟩
  exact List.pairwise_pair.2 (by decide)

end Ploykit.Webx.Limiter

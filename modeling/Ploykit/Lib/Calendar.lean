import Mathlib.Algebra.Order.Group.Int

/-!
# Calendar

An instant is a number of microseconds since 1970-01-01 00:00:00 UTC. A date is
counted in days from the same epoch; eras of 400 years of 146097 days each begin
on the first of March, so that a leap day is the last day of its year. Months are
counted from January of the year 0. `addDate` moves a day to the day of the same number in
another month, and beyond that month if it is too short.
-/

namespace Ploykit.Lib

/-- Microseconds since the Unix epoch. -/
abbrev Time := Int

namespace Calendar

def microsPerDay : Int := 86400000000

structure Date where
  year : Int
  month : Int
  day : Int
  deriving DecidableEq, Repr

/-- The date of the day `z` days after 1970-01-01. -/
def ofDays (z : Int) : Date :=
  let z := z + 719468
  let era := z / 146097
  let doe := z % 146097
  let yoe := (doe - doe / 1460 + doe / 36524 - doe / 146096) / 365
  let doy := doe - (365 * yoe + yoe / 4 - yoe / 100)
  let mp := (5 * doy + 2) / 153
  let month := if mp < 10 then mp + 3 else mp - 9
  { year := yoe + era * 400 + (if month ≤ 2 then 1 else 0)
    month := month
    day := doy - (153 * mp + 2) / 5 + 1 }

/-- The number of days from 1970-01-01 to the first of the month. -/
def daysToMonth (year month : Int) : Int :=
  let y := if month ≤ 2 then year - 1 else year
  let yoe := y % 400
  let doy := (153 * (if month > 2 then month - 3 else month + 9) + 2) / 5
  y / 400 * 146097 + (yoe * 365 + yoe / 4 - yoe / 100 + doy) - 719468

/-- The date of an instant in UTC. -/
def date (t : Time) : Date := ofDays (t / microsPerDay)

/-- The instant `years`, `months` and `days` later: months and days that overflow
are carried over, the time of day stays. -/
def addDate (t : Time) (years months days : Int) : Time :=
  let d := date t
  let m := d.month - 1 + months
  (daysToMonth (d.year + years + m / 12) (m % 12 + 1) + (d.day - 1 + days)) * microsPerDay
    + t % microsPerDay

/-- The year of an era that a day of the era is in, and the day in that year, both
counted from the first of March. -/
theorem yearOfEra_bounds {doe yoe : Int} (h₀ : 0 ≤ doe) (h₁ : doe < 146097)
    (hyoe : (doe - doe / 1460 + doe / 36524 - doe / 146096) / 365 = yoe) :
    (0 ≤ yoe ∧ yoe ≤ 399 ∧ 0 ≤ doe - (365 * yoe + yoe / 4 - yoe / 100) ∧
      doe - (365 * yoe + yoe / 4 - yoe / 100) ≤ 365) ∧
    (yoe = 399 ∨ doe < 365 * (yoe + 1) + (yoe + 1) / 4 - (yoe + 1) / 100) := by
  have hcentury : doe = 146096 ∨ doe / 146096 = 0 ∧
      (doe / 36524 = 0 ∨ doe / 36524 = 1 ∨ doe / 36524 = 2 ∨ doe / 36524 = 3) := by omega
  rcases hcentury with rfl | ⟨he, hd⟩
  · subst hyoe
    decide
  · -- Inside one century the correction by centuries is constant.
    have hcorr : yoe / 100 = doe / 36524 := by
      rcases hd with hd | hd | hd | hd <;> rw [he, hd] at hyoe <;> omega
    constructor
    · rw [hcorr]
      rcases hd with hd | hd | hd | hd <;> rw [he, hd] at hyoe <;> rw [hd] <;> omega
    · -- The next year is in the same century, or the first of the next one.
      have hlast : (yoe + 1) / 100 = yoe / 100 ∨ yoe % 100 = 99 := by omega
      rcases hlast with hlast | hlast
      · rw [hlast, hcorr]
        rcases hd with hd | hd | hd | hd <;> rw [he, hd] at hyoe <;> rw [hd] <;> omega
      · rcases hd with hd | hd | hd | hd <;> rw [he, hd] at hyoe <;> omega

theorem ofDays_eq {z era doe yoe doy mp : Int} (hera : (z + 719468) / 146097 = era)
    (hdoe : (z + 719468) % 146097 = doe)
    (hyoe : (doe - doe / 1460 + doe / 36524 - doe / 146096) / 365 = yoe)
    (hdoy : doe - (365 * yoe + yoe / 4 - yoe / 100) = doy) (hmp : (5 * doy + 2) / 153 = mp) :
    ofDays z = ⟨yoe + era * 400 + (if (if mp < 10 then mp + 3 else mp - 9) ≤ 2 then 1 else 0),
      if mp < 10 then mp + 3 else mp - 9, doy - (153 * mp + 2) / 5 + 1⟩ := by
  subst hera hdoe hyoe hdoy hmp
  rfl

/-- A day is the day of its date. -/
theorem ofDays_spec (z : Int) : 1 ≤ (ofDays z).month ∧ (ofDays z).month ≤ 12 ∧
    daysToMonth (ofDays z).year (ofDays z).month + ((ofDays z).day - 1) = z := by
  obtain ⟨era, hera⟩ : ∃ era, (z + 719468) / 146097 = era := ⟨_, rfl⟩
  obtain ⟨doe, hdoe⟩ : ∃ doe, (z + 719468) % 146097 = doe := ⟨_, rfl⟩
  obtain ⟨yoe, hyoe⟩ : ∃ yoe, (doe - doe / 1460 + doe / 36524 - doe / 146096) / 365 = yoe := ⟨_, rfl⟩
  obtain ⟨doy, hdoy⟩ : ∃ doy, doe - (365 * yoe + yoe / 4 - yoe / 100) = doy := ⟨_, rfl⟩
  obtain ⟨mp, hmp⟩ : ∃ mp, (5 * doy + 2) / 153 = mp := ⟨_, rfl⟩
  obtain ⟨⟨hyoe₀, hyoe₁, hdoy₀, hdoy₁⟩, -⟩ := yearOfEra_bounds (by omega) (by omega) hyoe
  rw [ofDays_eq hera hdoe hyoe hdoy hmp]
  have hmp₀ : 0 ≤ mp := by omega
  have hmp₁ : mp ≤ 11 := by omega
  have hsplit : era * 146097 + doe = z + 719468 := by omega
  clear hyoe hmp hera hdoe
  by_cases hlate : mp < 10
  · simp only [if_pos hlate, daysToMonth]
    split <;> split <;> omega
  · simp only [if_neg hlate, daysToMonth]
    split <;> split <;> omega

/-- A number in decimal, with leading zeros up to the width. -/
def padded (width n : Nat) : String :=
  let ds := Nat.toDigits 10 n
  String.ofList (List.replicate (width - ds.length) '0' ++ ds)

theorem isDigit_of_mem_padded {width n : Nat} {c : Char} (h : c ∈ (padded width n).toList) :
    c.isDigit := by
  simp only [padded, String.toList_ofList, List.mem_append, List.mem_replicate] at h
  rcases h with ⟨-, rfl⟩ | h
  · decide
  · exact Nat.isDigit_of_mem_toDigits (by decide) (by decide) h

/-! ## Months -/

/-- The first day of the month. -/
def monthStart (m : Int) : Int := daysToMonth (m / 12) (m % 12 + 1)

/-- The month of a day. -/
def monthOf (z : Int) : Int := (ofDays z).year * 12 + ((ofDays z).month - 1)

/-- A month has from 28 to 31 days. -/
theorem monthStart_next (m : Int) : monthStart m + 28 ≤ monthStart (m + 1) ∧ monthStart (m + 1) ≤ monthStart m + 31 := by
  obtain ⟨y, r, hy, hr, h₀, h₁⟩ : ∃ y r, m / 12 = y ∧ m % 12 = r ∧ 0 ≤ r ∧ r < 12 := ⟨_, _, rfl, rfl, by omega, by omega⟩
  have hnext : (m + 1) / 12 = (if r = 11 then y + 1 else y) ∧ (m + 1) % 12 = if r = 11 then 0 else r + 1 := by
    split <;> omega
  simp only [monthStart, daysToMonth, hy, hr, hnext.1, hnext.2]
  clear hnext hy hr
  obtain rfl | rfl | rfl | rfl | rfl | rfl | rfl | rfl | rfl | rfl | rfl | rfl : r = 0 ∨ r = 1 ∨ r = 2 ∨ r = 3 ∨ r = 4 ∨ r = 5 ∨
    r = 6 ∨ r = 7 ∨ r = 8 ∨ r = 9 ∨ r = 10 ∨ r = 11 := by omega
  all_goals simp; omega

theorem monthStart_mono {m m' : Int} (h : m ≤ m') : monthStart m ≤ monthStart m' := by
  obtain ⟨n, rfl⟩ : ∃ n : Nat, m' = m + n := ⟨(m' - m).toNat, by omega⟩
  clear h
  induction n with
  | zero => simp
  | succ n ih =>
    have hnext := (monthStart_next (m + n)).1
    rw [Int.natCast_succ, ← Int.add_assoc]
    omega

/-- Days of a month are numbered from 1. -/
theorem sub_monthStart (z : Int) : z - monthStart (monthOf z) = (ofDays z).day - 1 := by
  obtain ⟨hmonth₀, hmonth₁, hday⟩ := ofDays_spec z
  have hdiv : ((ofDays z).year * 12 + ((ofDays z).month - 1)) / 12 = (ofDays z).year := by omega
  have hmod : ((ofDays z).year * 12 + ((ofDays z).month - 1)) % 12 + 1 = (ofDays z).month := by omega
  rw [monthStart, monthOf, hdiv, hmod]
  omega

/-- Years and months counted from March, as `ofDays` counts them. -/
theorem monthStart_march {era yoe mp : Int} (hyoe₀ : 0 ≤ yoe) (hyoe₁ : yoe ≤ 399) (hmp₀ : 0 ≤ mp) (hmp₁ : mp ≤ 11) :
    monthStart ((yoe + era * 400) * 12 + (mp + 2)) =
      era * 146097 + (365 * yoe + yoe / 4 - yoe / 100) + (153 * mp + 2) / 5 - 719468 := by
  by_cases hlate : mp < 10
  · have hdiv : ((yoe + era * 400) * 12 + (mp + 2)) / 12 = yoe + era * 400 := by omega
    have hmod : ((yoe + era * 400) * 12 + (mp + 2)) % 12 = mp + 2 := by omega
    simp only [monthStart, daysToMonth, hdiv, hmod]
    split <;> split <;> omega
  · have hdiv : ((yoe + era * 400) * 12 + (mp + 2)) / 12 = yoe + era * 400 + 1 := by omega
    have hmod : ((yoe + era * 400) * 12 + (mp + 2)) % 12 = mp - 10 := by omega
    simp only [monthStart, daysToMonth, hdiv, hmod]
    split <;> split <;> omega

/-- A day is in its month. -/
theorem monthStart_monthOf (z : Int) : monthStart (monthOf z) ≤ z ∧ z < monthStart (monthOf z + 1) := by
  obtain ⟨era, hera⟩ : ∃ era, (z + 719468) / 146097 = era := ⟨_, rfl⟩
  obtain ⟨doe, hdoe⟩ : ∃ doe, (z + 719468) % 146097 = doe := ⟨_, rfl⟩
  obtain ⟨yoe, hyoe⟩ : ∃ yoe, (doe - doe / 1460 + doe / 36524 - doe / 146096) / 365 = yoe := ⟨_, rfl⟩
  obtain ⟨doy, hdoy⟩ : ∃ doy, doe - (365 * yoe + yoe / 4 - yoe / 100) = doy := ⟨_, rfl⟩
  obtain ⟨mp, hmp⟩ : ∃ mp, (5 * doy + 2) / 153 = mp := ⟨_, rfl⟩
  obtain ⟨⟨hyoe₀, hyoe₁, hdoy₀, hdoy₁⟩, hyear⟩ := yearOfEra_bounds (by omega) (by omega) hyoe
  have hsplit : era * 146097 + doe = z + 719468 := by omega
  have hlast : doe < 146097 := by omega
  have hmp₀ : 0 ≤ mp := by omega
  have hmp₁ : mp ≤ 11 := by omega
  have hmonth : monthOf z = (yoe + era * 400) * 12 + (mp + 2) := by
    rw [monthOf, ofDays_eq hera hdoe hyoe hdoy hmp]
    dsimp only
    split <;> split <;> omega
  rw [hmonth]
  clear hyoe hera hdoe hmonth
  constructor
  · rw [monthStart_march hyoe₀ hyoe₁ hmp₀ hmp₁]
    omega
  · by_cases hfeb : mp = 11
    · subst hfeb
      -- The year of the era is over with this month.
      by_cases hend : yoe = 399
      · subst hend
        have hnext : (399 + era * 400) * 12 + (11 + 2) + 1 = (0 + (era + 1) * 400) * 12 + (0 + 2) := by omega
        rw [hnext, monthStart_march (by omega) (by omega) (by omega) (by omega)]
        omega
      · have hnext : (yoe + era * 400) * 12 + (11 + 2) + 1 = (yoe + 1 + era * 400) * 12 + (0 + 2) := by omega
        rw [hnext, monthStart_march (by omega) (by omega) (by omega) (by omega)]
        omega
    · have hnext : (yoe + era * 400) * 12 + (mp + 2) + 1 = (yoe + era * 400) * 12 + (mp + 1 + 2) := by omega
      rw [hnext, monthStart_march hyoe₀ hyoe₁ (by omega) (by omega)]
      omega

theorem monthOf_eq {z m : Int} (h : monthStart m ≤ z) (h' : z < monthStart (m + 1)) : monthOf z = m := by
  obtain ⟨hz, hz'⟩ := monthStart_monthOf z
  rcases lt_trichotomy (monthOf z) m with hlt | heq | hgt
  · have hle := monthStart_mono (show monthOf z + 1 ≤ m by omega)
    omega
  · exact heq
  · have hle := monthStart_mono (show m + 1 ≤ monthOf z by omega)
    omega

theorem monthOf_mono {z z' : Int} (h : z ≤ z') : monthOf z ≤ monthOf z' := by
  by_contra hlt
  have hle := monthStart_mono (show monthOf z' + 1 ≤ monthOf z by omega)
  have hz := (monthStart_monthOf z).1
  have hz' := (monthStart_monthOf z').2
  omega

/-! ## Adding months to a day -/

/-- The day of the same number `n` months later, counted on where there is none. -/
def addMonths (z n : Int) : Int := monthStart (monthOf z + n) + (z - monthStart (monthOf z))

/-- The month `n` months later has a day of the same number. -/
def HasDay (z n : Int) : Prop := addMonths z n < monthStart (monthOf z + n + 1)

instance {z n : Int} : Decidable (HasDay z n) := inferInstanceAs (Decidable (_ < _))

section addMonths

variable {z z' n : Int}

theorem day_bounds (z : Int) : 0 ≤ z - monthStart (monthOf z) ∧ z - monthStart (monthOf z) ≤ 30 := by
  obtain ⟨h, h'⟩ := monthStart_monthOf z
  have hlen := (monthStart_next (monthOf z)).2
  omega

/-- Days are overtaken by less than three days, and by none if the later month has the day. -/
theorem addMonths_mono (h : z < z') : addMonths z n ≤ addMonths z' n + 2 ∧ (HasDay z n → addMonths z n < addMonths z' n) := by
  obtain ⟨hday, hday'⟩ := day_bounds z
  obtain ⟨hday₁, -⟩ := day_bounds z'
  rcases (monthOf_mono h.le).eq_or_lt with heq | hlt
  · have hkept : addMonths z n < addMonths z' n := by
      rw [addMonths, addMonths, ← heq]
      omega
    exact ⟨by omega, fun _ => hkept⟩
  · have hlen := (monthStart_next (monthOf z + n)).1
    have hle := monthStart_mono (show monthOf z + n + 1 ≤ monthOf z' + n by omega)
    unfold HasDay addMonths
    omega

/-- Month by month a day ends at most three days later than at once. -/
theorem iterate_addMonths (z : Int) (n : Nat) : (fun z => addMonths z 1)^[n] z = addMonths z n ∨
    ∃ j : Int, 0 ≤ monthStart (monthOf z + j) + (z - monthStart (monthOf z)) - monthStart (monthOf z + j + 1) ∧
      (fun z => addMonths z 1)^[n] z = monthStart (monthOf z + n + 1) +
        (monthStart (monthOf z + j) + (z - monthStart (monthOf z)) - monthStart (monthOf z + j + 1)) := by
  induction n with
  | zero =>
    refine .inl ?_
    simp [addMonths]
  | succ n ih =>
    rw [Function.iterate_succ_apply']
    obtain ⟨hday, hday'⟩ := day_bounds z
    rcases ih with heq | ⟨j, hover, heq⟩
    · rw [heq]
      have hlen := monthStart_next (monthOf z + n)
      have hlen' := monthStart_next (monthOf z + n + 1)
      by_cases hlast : HasDay z n
      · have hmonth : monthOf (addMonths z n) = monthOf z + n := by
          refine monthOf_eq ?_ hlast
          unfold addMonths
          omega
        refine .inl ?_
        rw [addMonths, hmonth]
        simp only [addMonths, Int.natCast_succ, ← Int.add_assoc]
        omega
      · have hmonth : monthOf (addMonths z n) = monthOf z + n + 1 := by
          unfold HasDay at hlast
          refine monthOf_eq (by omega) ?_
          unfold addMonths
          omega
        refine .inr ⟨n, ?_, ?_⟩
        · unfold HasDay addMonths at hlast
          omega
        · rw [addMonths, hmonth]
          simp only [addMonths, Int.natCast_succ, ← Int.add_assoc]
    · -- What has been counted on is at the start of a month, and stays there.
      have hlen := (monthStart_next (monthOf z + j)).1
      have hlen' := (monthStart_next (monthOf z + n + 1)).1
      have hmonth : monthOf ((fun z => addMonths z 1)^[n] z) = monthOf z + n + 1 := by
        rw [heq]
        exact monthOf_eq (by omega) (by omega)
      refine .inr ⟨j, hover, ?_⟩
      rw [addMonths, hmonth, heq]
      simp only [Int.natCast_succ, ← Int.add_assoc]
      omega

end addMonths

/-! ## Adding months to an instant -/

section addDate

variable {t t' : Time}

/-- The day of an instant. -/
def dayOf (t : Time) : Int := t / microsPerDay

theorem addDate_eq (t : Time) (years months : Int) :
    addDate t years months 0 = addMonths (dayOf t) (years * 12 + months) * microsPerDay + t % microsPerDay := by
  have hdiv : (monthOf (dayOf t) + (years * 12 + months)) / 12
      = (ofDays (dayOf t)).year + years + ((ofDays (dayOf t)).month - 1 + months) / 12 := by
    unfold monthOf
    omega
  have hmod : (monthOf (dayOf t) + (years * 12 + months)) % 12 = ((ofDays (dayOf t)).month - 1 + months) % 12 := by
    unfold monthOf
    omega
  rw [addMonths, monthStart, hdiv, hmod, sub_monthStart, addDate, date, Int.add_zero]
  rfl

/-- A later day at the same time of day is later. -/
theorem lt_sameTime {t d : Int} (h : t / microsPerDay < d) : t < d * microsPerDay + t % microsPerDay := by
  unfold microsPerDay at *
  omega

/-- Months later is later. -/
theorem lt_addDate {years months : Int} (h : 0 < years * 12 + months) : t < addDate t years months 0 := by
  obtain ⟨hday, -⟩ := day_bounds (dayOf t)
  have hlater : dayOf t < addMonths (dayOf t) (years * 12 + months) := by
    have hnext := (monthStart_next (monthOf (dayOf t))).1
    have hmono := monthStart_mono (show monthOf (dayOf t) + 1 ≤ monthOf (dayOf t) + (years * 12 + months) by omega)
    have hend := (monthStart_monthOf (dayOf t)).2
    have hlen := (monthStart_next (monthOf (dayOf t))).2
    unfold addMonths
    omega
  rw [addDate_eq]
  exact lt_sameTime hlater

theorem lt_addMonth (t : Time) : t < addDate t 0 1 0 := lt_addDate (by decide)

theorem lt_addYear (t : Time) : t < addDate t 1 0 0 := lt_addDate (by decide)

theorem addDate_days (t : Time) (days : Int) : addDate t 0 0 days = t + days * microsPerDay := by
  have hsame : addMonths (dayOf t) (0 * 12 + 0) = dayOf t := by
    rw [addMonths, Int.zero_mul, Int.add_zero, Int.add_zero]
    omega
  have hzero : addDate t 0 0 0 = t := by
    rw [addDate_eq, hsame]
    exact Int.ediv_mul_add_emod t microsPerDay
  have hdays (a b r : Int) : (a + (b + days)) * microsPerDay + r = (a + (b + 0)) * microsPerDay + r + days * microsPerDay := by
    unfold microsPerDay
    omega
  calc addDate t 0 0 days = addDate t 0 0 0 + days * microsPerDay := hdays _ _ _
    _ = t + days * microsPerDay := by rw [hzero]

/-- The month that many years and months later has a day of the same number. -/
def KeepsDay (t : Time) (years months : Int) : Prop := HasDay (dayOf t) (years * 12 + months)

instance {years months : Int} : Decidable (KeepsDay t years months) := inferInstanceAs (Decidable (HasDay _ _))

theorem rest_bounds (t : Int) : 0 ≤ t % microsPerDay ∧ t % microsPerDay < microsPerDay :=
  ⟨Int.emod_nonneg _ (by decide), Int.emod_lt_of_pos _ (by decide)⟩

/-- The time of day counts less than a day. -/
theorem instant_lt {a b r r' : Int} (k : Int) (h : a < b + k) (hr : r < microsPerDay) (hr' : 0 ≤ r') :
    a * microsPerDay + r < b * microsPerDay + r' + k * microsPerDay := by
  unfold microsPerDay at *
  omega

/-- Instants are overtaken by less than three days, and not at all if the day is kept. -/
theorem addDate_mono (h : t ≤ t') (years months : Int) :
    addDate t years months 0 < addDate t' years months 0 + 3 * microsPerDay ∧
      (KeepsDay t years months → addDate t years months 0 ≤ addDate t' years months 0) := by
  have hday : dayOf t ≤ dayOf t' := Int.ediv_le_ediv (by decide) h
  obtain ⟨-, hrest⟩ := rest_bounds t
  obtain ⟨hrest', -⟩ := rest_bounds t'
  rw [addDate_eq, addDate_eq]
  rcases hday.eq_or_lt with heq | hlt
  · have hhours : t % microsPerDay ≤ t' % microsPerDay := by
      rw [Int.emod_def, Int.emod_def, show t / microsPerDay = t' / microsPerDay from heq]
      exact Int.sub_le_sub_right h _
    rw [heq]
    exact ⟨instant_lt 3 (by omega) hrest hrest', fun _ => Int.add_le_add_left hhours _⟩
  · obtain ⟨hnear, hkept⟩ := @addMonths_mono _ _ (years * 12 + months) hlt
    refine ⟨instant_lt 3 (by omega) hrest hrest', fun hkeeps => ?_⟩
    have hless := instant_lt 0 (by simpa using hkept hkeeps) hrest hrest'
    rw [Int.zero_mul, Int.add_zero] at hless
    exact Int.le_of_lt hless

theorem dayOf_instant (z : Int) (t : Time) : dayOf (z * microsPerDay + t % microsPerDay) = z ∧
    (z * microsPerDay + t % microsPerDay) % microsPerDay = t % microsPerDay := by
  obtain ⟨hrest, hrest'⟩ := rest_bounds t
  generalize t % microsPerDay = r at hrest hrest'
  unfold dayOf microsPerDay at *
  omega

theorem iterate_addDate (t : Time) (n : Nat) :
    (addDate · 0 1 0)^[n] t = (fun z => addMonths z 1)^[n] (dayOf t) * microsPerDay + t % microsPerDay := by
  induction n with
  | zero => exact (Int.ediv_mul_add_emod t microsPerDay).symm
  | succ n ih =>
    obtain ⟨hday, hrest⟩ := dayOf_instant ((fun z => addMonths z 1)^[n] (dayOf t)) t
    rw [Function.iterate_succ_apply', Function.iterate_succ_apply', ih, addDate_eq, hday, hrest]
    rfl

/-- Twelve months one by one end at most three days later than a year at once, and with it where all months have the day. -/
theorem iterate_addDate_year (t : Time) :
    (addDate · 0 1 0)^[12] t ≤ addDate t 1 0 0 + 3 * microsPerDay ∧
      ((date t).day ≤ 28 → (addDate · 0 1 0)^[12] t = addDate t 1 0 0) := by
  have hless {a b r : Int} (h : a ≤ b + 3) : a * microsPerDay + r ≤ b * microsPerDay + r + 3 * microsPerDay := by
    unfold microsPerDay
    omega
  rw [iterate_addDate, addDate_eq, show (1 : Int) * 12 + 0 = (12 : Nat) from rfl]
  rcases iterate_addMonths (dayOf t) 12 with heq | ⟨j, hover, heq⟩
  · rw [heq]
    exact ⟨hless (by omega), fun _ => rfl⟩
  · have hlen := (monthStart_next (monthOf (dayOf t) + j)).1
    have hlen' := (monthStart_next (monthOf (dayOf t) + (12 : Nat))).2
    constructor
    · refine hless ?_
      rw [heq, addMonths]
      omega
    · intro hday
      have hnumber : (ofDays (dayOf t)).day ≤ 28 := hday
      have hdays := sub_monthStart (dayOf t)
      omega

end addDate

/-! ## The first instant of a month -/

section startOf

variable {m m' : Int}

/-- The instant at which the month begins. -/
def startOf (m : Int) : Time := monthStart m * microsPerDay

theorem monthOf_monthStart (m : Int) : monthOf (monthStart m) = m :=
  monthOf_eq le_rfl (by have hnext := monthStart_next m; omega)

theorem dayOf_startOf (m : Int) : dayOf (startOf m) = monthStart m := Int.mul_ediv_cancel _ (by decide)

theorem date_startOf (m : Int) : date (startOf m) = ⟨m / 12, m % 12 + 1, 1⟩ := by
  have hmonth := monthOf_monthStart m
  have hday := sub_monthStart (monthStart m)
  obtain ⟨h₁, h₁₂, -⟩ := ofDays_spec (monthStart m)
  have hdate : date (startOf m) = ofDays (monthStart m) := congrArg ofDays (dayOf_startOf m)
  rw [hdate]
  rw [hmonth] at hday
  unfold monthOf at hmonth
  generalize hd : ofDays (monthStart m) = d at *
  obtain ⟨year, month, day⟩ := d
  simp only at *
  simp only [Date.mk.injEq]
  omega

theorem addDate_startOf (m n : Int) : addDate (startOf m) 0 n 0 = startOf (m + n) := by
  have hrest : startOf m % microsPerDay = 0 := Int.mul_emod_left _ _
  rw [addDate_eq, dayOf_startOf, addMonths, monthOf_monthStart, hrest, startOf]
  simp

theorem startOf_lt : startOf m < startOf m' ↔ m < m' := by
  have hiff : startOf m < startOf m' ↔ monthStart m < monthStart m' := Int.mul_lt_mul_right (by decide)
  rw [hiff]
  constructor
  · intro h
    by_contra hle
    have hmono := monthStart_mono (Int.not_lt.1 hle)
    omega
  · intro h
    have hmono := monthStart_mono (Int.add_one_le_iff.2 h)
    have hnext := (monthStart_next m).1
    omega

theorem startOf_le : startOf m ≤ startOf m' ↔ m ≤ m' := by
  rw [← Int.not_lt, startOf_lt, Int.not_lt]

end startOf

end Calendar

end Ploykit.Lib

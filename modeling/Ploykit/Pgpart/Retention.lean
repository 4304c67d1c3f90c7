import Ploykit.Pgpart.Partitions

/-!
# What rounds keep and what they remove

The months of the calendar are numbered, and a round is about the months from `cutoff`
on. A partition's name and bounds are of the same month, so what the names say decides
what the rows are.
-/

namespace Ploykit.Pgpart

open Lib

/-! ## Names of months -/

/-- The number of the month of an instant. -/
def monthAt (t : Time) : Int := Calendar.monthOf (Calendar.dayOf t)

theorem monthStart_eq (now : Time) : monthStart now = Calendar.startOf (monthAt now) := by
  obtain ⟨h₁, h₁₂, -⟩ := Calendar.ofDays_spec (Calendar.dayOf now)
  have hdate : Calendar.date now = Calendar.ofDays (Calendar.dayOf now) := rfl
  rw [monthStart, Calendar.startOf, Calendar.monthStart, monthAt, Calendar.monthOf, hdate]
  generalize Calendar.ofDays (Calendar.dayOf now) = d at *
  have hyear : (d.year * 12 + (d.month - 1)) / 12 = d.year := by omega
  have hmonth : (d.year * 12 + (d.month - 1)) % 12 + 1 = d.month := by omega
  rw [hyear, hmonth]

theorem cutoff_eq (t : Table) (now : Time) : cutoff t now = Calendar.startOf (monthAt now - (t.retention - 1)) := by
  rw [cutoff, monthStart_eq, Calendar.addDate_startOf, ← Int.sub_eq_add_neg]

theorem retention_pos (t : Table) : 0 < t.retention := by
  unfold Table.retention defaultRetentionMonths
  split <;> omega

/-- A number is the value of its digits. -/
theorem ofDigitChars_padded (width n : Nat) : Nat.ofDigitChars 10 (Calendar.padded width n).toList 0 = n := by
  rw [Calendar.padded, String.toList_ofList, Nat.ofDigitChars_append, Nat.ofDigitChars_replicate_zero, Nat.mul_zero,
    Nat.ofDigitChars_ten_toDigits]

theorem length_padded {width n : Nat} (hwidth : 0 < width) (h : n < 10 ^ width) : (Calendar.padded width n).toList.length = width := by
  have hle : (Nat.toDigits 10 n).length ≤ width := (Nat.length_toDigits_le_iff (by decide) hwidth).2 h
  rw [Calendar.padded, String.toList_ofList, List.length_append, List.length_replicate]
  omega

theorem parseMonth_eq {year month : List Char} (hyear : year.length = 4) (hmonth : month.length = 2) :
    parseMonth (year ++ '_' :: month) =
      if (year ++ month).all Char.isDigit ∧ 1 ≤ Nat.ofDigitChars 10 month 0 ∧ Nat.ofDigitChars 10 month 0 ≤ 12 then
        some (Calendar.daysToMonth (Nat.ofDigitChars 10 year 0) (Nat.ofDigitChars 10 month 0) * Calendar.microsPerDay)
      else none := by
  obtain ⟨a, b, c, d, rfl⟩ := List.length_eq_four.1 hyear
  obtain ⟨e, f, rfl⟩ := List.length_eq_two.1 hmonth
  rfl

/-- A text that is read has four digits and two digits. -/
theorem parseMonth_shape {s : List Char} {month : Time} (h : parseMonth s = some month) :
    ∃ ys ms, s = ys ++ '_' :: ms ∧ ys.length = 4 ∧ ms.length = 2 ∧ (ys ++ ms).all Char.isDigit = true ∧
      month = Calendar.daysToMonth (Nat.ofDigitChars 10 ys 0) (Nat.ofDigitChars 10 ms 0) * Calendar.microsPerDay := by
  have hshape : ∃ ys ms : List Char, s = ys ++ '_' :: ms ∧ ys.length = 4 ∧ ms.length = 2 := by
    unfold parseMonth at h
    split at h
    · exact ⟨[_, _, _, _], [_, _], rfl, rfl, rfl⟩
    · cases h
  obtain ⟨ys, ms, rfl, hys, hms⟩ := hshape
  rw [parseMonth_eq hys hms] at h
  split at h
  · rename_i hdigits
    exact ⟨ys, ms, rfl, hys, hms, hdigits.1, (Option.some.inj h).symm⟩
  · cases h

theorem appendInt_nonneg {x : Int} (width : Nat) (h : 0 ≤ x) : appendInt x width = Calendar.padded width x.natAbs := by
  rw [appendInt, if_neg (Int.not_lt.2 h)]
  exact String.empty_append ..

theorem formatMonth_startOf (m : Int) : (formatMonth (Calendar.startOf m)).toList =
    (appendInt (m / 12) 4).toList ++ '_' :: (Calendar.padded 2 (m % 12 + 1).natAbs).toList := by
  rw [formatMonth, Calendar.date_startOf, appendInt_nonneg 2 (by omega : 0 ≤ m % 12 + 1)]
  simp

theorem daysToMonth_startOf {m : Int} : Calendar.daysToMonth (m / 12) (m % 12 + 1) * Calendar.microsPerDay = Calendar.startOf m := rfl

/-- What is read from the text of a month is the month. -/
theorem parseMonth_format {m : Int} {month : Time} (h : parseMonth (formatMonth (Calendar.startOf m)).toList = some month) :
    month = Calendar.startOf m := by
  rw [formatMonth_startOf] at h
  obtain ⟨ys, ms, htext, hys, hms, hdigits, rfl⟩ := parseMonth_shape h
  have hmonth : (Calendar.padded 2 (m % 12 + 1).natAbs).toList.length = 2 := length_padded (by decide) (by omega)
  have hlength := congrArg List.length htext
  simp only [List.length_append, List.length_cons, hmonth, hys, hms] at hlength
  obtain ⟨hyear, hrest⟩ := List.append_inj htext (by omega)
  have hms' := (List.cons.inj hrest).2
  -- the year has no sign
  have hpos : 0 ≤ m / 12 := by
    by_contra hneg
    have hsign : '-' ∈ ys := by
      rw [← hyear, appendInt, if_pos (Int.not_le.1 hneg)]
      simp
    have hdigit := List.all_eq_true.1 hdigits '-' (List.mem_append_left _ hsign)
    exact absurd hdigit (by decide)
  rw [appendInt_nonneg 4 hpos] at hyear
  rw [← hyear, ← hms', ofDigitChars_padded, ofDigitChars_padded, Int.natAbs_of_nonneg hpos, Int.natAbs_of_nonneg (by omega),
    daysToMonth_startOf]

/-- The text of a month of a year with four digits is read. -/
theorem parseMonth_of_year {m : Int} (h₀ : 0 ≤ m / 12) (h₁ : m / 12 < 10000) :
    parseMonth (formatMonth (Calendar.startOf m)).toList = some (Calendar.startOf m) := by
  have hyear : (Calendar.padded 4 (m / 12).natAbs).toList.length = 4 := length_padded (by decide) (by omega)
  have hmonth : (Calendar.padded 2 (m % 12 + 1).natAbs).toList.length = 2 := length_padded (by decide) (by omega)
  have hvalue : ((m % 12 + 1).natAbs : Int) = m % 12 + 1 := by omega
  rw [formatMonth_startOf, appendInt_nonneg 4 h₀, parseMonth_eq hyear hmonth, if_pos, ofDigitChars_padded, ofDigitChars_padded,
    hvalue, Int.natAbs_of_nonneg h₀, daysToMonth_startOf]
  refine ⟨List.all_eq_true.2 fun c hc => ?_, ?_⟩
  · rcases List.mem_append.1 hc with hc | hc
    · exact Calendar.isDigit_of_mem_padded hc
    · exact Calendar.isDigit_of_mem_padded hc
  · rw [ofDigitChars_padded]
    omega

theorem parsePartitionMonth_name (parent : String) (month : Time) :
    parsePartitionMonth parent (partitionName parent month) = parseMonth (formatMonth month).toList := by
  have htext : (partitionName parent month).toList = (parent ++ "_").toList ++ (formatMonth month).toList := by
    simp [partitionName]
  rw [parsePartitionMonth, htext]
  simp

/-! ## Relations -/

variable {E : Type}

def State.bounds : State → Option (Time × Time)
  | attached lo hi => some (lo, hi)
  | detaching lo hi => some (lo, hi)
  | loose => none

/-- A partition with the name of a month has the bounds of the month. -/
def Named (t : Table) (db : Db) : Prop :=
  ∀ rel ∈ db, ∀ b, rel.state.bounds = some b → ∀ month, parsePartitionMonth t.parent rel.name = some month →
    b = (month, Calendar.addDate month 0 1 0)

/-- A relation with the name of a month is attached. -/
def Attached (t : Table) (db : Db) : Prop :=
  ∀ rel ∈ db, parsePartitionMonth t.parent rel.name ≠ none → ∃ lo hi, rel.state = .attached lo hi

namespace Db

variable {db : Db} {name : String} {rel : Relation} {f : State → State}

theorem mem_remove : rel ∈ db.remove name ↔ rel ∈ db ∧ rel.name ≠ name := by
  simp [remove]

theorem mem_set_of_ne (h : rel ∈ db) (hne : rel.name ≠ name) : rel ∈ db.set name f :=
  List.mem_map.2 ⟨rel, h, if_neg hne⟩

theorem set_cases (h : rel ∈ db.set name f) : (rel ∈ db ∧ rel.name ≠ name) ∨ ∃ r ∈ db, r.name = name ∧ rel = { r with state := f r.state } := by
  obtain ⟨r, hr, hrel⟩ := List.mem_map.1 h
  by_cases hname : r.name = name
  · rw [if_pos hname] at hrel
    exact .inr ⟨r, hr, hname, hrel.symm⟩
  · rw [if_neg hname] at hrel
    subst hrel
    exact .inl ⟨hr, hname⟩

/-- What is dropped after it was detached is gone, and nothing else has changed. -/
theorem remove_set : (db.set name f).remove name = db.remove name := by
  induction db with
  | nil => rfl
  | cons rel db ih =>
    have ih : Db.remove (Db.set db name f) name = Db.remove db name := ih
    by_cases hname : rel.name = name
    · simpa [set, remove, hname] using ih
    · simpa [set, remove, hname] using ih

theorem mem_inheriting : name ∈ db.inheriting ↔ ∃ rel ∈ db, rel.name = name ∧ rel.state.inherits = true := by
  rw [inheriting, List.mem_insertionSort]
  simp only [List.mem_map, List.mem_filter]
  constructor
  · rintro ⟨rel, ⟨hrel, hin⟩, rfl⟩
    exact ⟨rel, hrel, rfl, hin⟩
  · rintro ⟨rel, hrel, rfl, hin⟩
    exact ⟨rel, ⟨hrel, hin⟩, rfl⟩

theorem attached_iff : db.attached name = true ↔ ∃ rel ∈ db, rel.name = name ∧ rel.state.inherits = true := by
  simp [attached]

end Db

/-- The bounds a name stands for do not change when the state is one with the same bounds or none. -/
theorem Named.set {t : Table} {db : Db} {name : String} {f : State → State} (h : Named t db)
    (hf : ∀ s b, (f s).bounds = some b → s.bounds = some b) : Named t (db.set name f) := by
  intro rel hrel b hb month hmonth
  rcases Db.set_cases hrel with ⟨hrel, -⟩ | ⟨r, hr, -, rfl⟩
  · exact h rel hrel b hb month hmonth
  · exact h r hr b (hf _ _ hb) month hmonth

/-! ## What no round touches -/

section live

variable {t : Table} {now : Time} {db db' : Db}

theorem name_month (t : Table) {m : Int} {month : Time}
    (h : parsePartitionMonth t.parent (partitionName t.parent (Calendar.startOf m)) = some month) : month = Calendar.startOf m := by
  rw [parsePartitionMonth_name] at h
  exact parseMonth_format h

/-- The statements that a round at `now` may issue: partitions are created for months, and only expired ones are detached or dropped. -/
def Permits (t : Table) (now : Time) : {β : Type} → Op E β → Prop
  | _, .createPartition name lower upper =>
    ∃ m, name = partitionName t.parent (Calendar.startOf m) ∧ lower = Calendar.startOf m ∧ upper = Calendar.addDate lower 0 1 0
  | _, .detach name => expired t now name = true
  | _, .drop name => expired t now name = true
  | _, _ => True

theorem permits_ensureMonths (is : List Nat) (created : List String) :
    (ensureMonths t now is created : Script (Op E) _).Calls (Permits t now) := by
  induction is generalizing created with
  | nil => trivial
  | cons i is ih =>
    refine ⟨trivial, fun r => ?_⟩
    cases r with
    | error e => trivial
    | ok yes =>
      cases yes with
      | true => exact ih created
      | false =>
        refine ⟨⟨monthAt now + i, ?_, ?_, rfl⟩, fun r => ?_⟩
        · rw [monthStart_eq, Calendar.addDate_startOf]
        · rw [monthStart_eq, Calendar.addDate_startOf]
        cases r with
        | error e => trivial
        | ok _ =>
          refine ⟨trivial, fun r => ?_⟩
          cases r with
          | error e => trivial
          | ok yes =>
            cases yes with
            | true => exact ih _
            | false => exact ih _

theorem permits_dropNames (names dropped : List String) : (dropNames t now names dropped : Script (Op E) _).Calls (Permits t now) := by
  induction names generalizing dropped with
  | nil => trivial
  | cons name names ih =>
    unfold dropNames
    refine Script.Calls.ite (fun hexpired => ⟨hexpired, fun r => ?_⟩) fun _ => ih dropped
    cases r with
    | error e => trivial
    | ok _ =>
      refine ⟨hexpired, fun r => ?_⟩
      cases r with
      | error e => trivial
      | ok _ => exact ih _

theorem permits_maintain : (maintain t now : Script (Op E) _).Calls (Permits t now) := by
  refine ⟨trivial, fun r => ?_⟩
  cases r with
  | error e => trivial
  | ok _ =>
    refine ⟨trivial, fun r => ?_⟩
    cases r with
    | error e => trivial
    | ok yes =>
      cases yes with
      | false => trivial
      | true =>
        refine Script.Calls.bind (Script.Calls.bind (permits_ensureMonths _ _) fun a => ?_) fun r => ⟨trivial, fun _ => trivial⟩
        obtain ⟨created, err⟩ := a
        cases err with
        | some e => trivial
        | none =>
          refine Script.Calls.bind ⟨trivial, fun r => ?_⟩ fun r => trivial
          cases r with
          | error e => trivial
          | ok names => exact permits_dropNames names []

/-- An attached partition of an expired name ends before the cutoff. -/
theorem upper_le_of_expired (hnamed : Named t db) {rel : Relation} (hrel : rel ∈ db) (hexpired : expired t now rel.name = true)
    {lo hi : Time} (hstate : rel.state = .attached lo hi) : hi ≤ cutoff t now := by
  unfold expired at hexpired
  split at hexpired
  · cases hexpired
  · rename_i month hmonth
    have hb := hnamed rel hrel (lo, hi) (by rw [hstate]; rfl) month hmonth
    obtain ⟨rfl, rfl⟩ := Prod.mk.inj hb
    exact Int.not_lt.1 (of_decide_eq_true hexpired)

/-- A permitted statement keeps the names right, and leaves the partitions that end after the cutoff. -/
theorem step_keeps {β : Type} (o : Op E β) (r : β) (hpermit : Permits t now o) (hstep : step o db r db') (hnamed : Named t db) :
    Named t db' ∧ ∀ rel ∈ db, ∀ lo hi, rel.state = .attached lo hi → cutoff t now < hi → rel ∈ db' := by
  have hstay : Named t db ∧ ∀ rel ∈ db, ∀ lo hi, rel.state = .attached lo hi → cutoff t now < hi → rel ∈ db :=
    ⟨hnamed, fun rel hrel _ _ _ _ => hrel⟩
  -- a partition that ends after the cutoff has another name
  have hother : ∀ name, expired t now name = true → ∀ rel ∈ db, ∀ lo hi, rel.state = .attached lo hi → cutoff t now < hi → rel.name ≠ name := by
    intro name hexpired rel hrel lo hi hstate hlive hname
    exact absurd hlive (Int.not_lt.2 (upper_le_of_expired hnamed hrel (hname ▸ hexpired) hstate))
  cases o with
  | acquire => exact hstep ▸ hstay
  | tryAdvisoryLock _ => exact hstep ▸ hstay
  | advisoryUnlock _ => exact hstep ▸ hstay
  | partitionAttached _ => exact hstep.1 ▸ hstay
  | listPartitions => exact hstep.1 ▸ hstay
  | createPartition name lower upper =>
    obtain (⟨-, rfl⟩ | ⟨-, -, rfl⟩) | ⟨rfl, -⟩ := hstep
    · exact hstay
    · obtain ⟨m, rfl, rfl, rfl⟩ := hpermit
      refine ⟨fun rel hrel b hb month hmonth => ?_, fun rel hrel _ _ _ _ => List.mem_cons_of_mem _ hrel⟩
      rcases List.mem_cons.1 hrel with rfl | hrel
      · rw [name_month t hmonth]
        exact (Option.some.inj hb).symm
      · exact hnamed rel hrel b hb month hmonth
    · exact hstay
  | detach name =>
    obtain ⟨-, rfl⟩ | ⟨rfl | ⟨-, rfl⟩, -⟩ := hstep
    · exact ⟨hnamed.set fun s b hb => (by cases hb), fun rel hrel lo hi hstate hlive =>
        Db.mem_set_of_ne hrel (hother name hpermit rel hrel lo hi hstate hlive)⟩
    · exact hstay
    · refine ⟨hnamed.set fun s b hb => ?_, fun rel hrel lo hi hstate hlive =>
        Db.mem_set_of_ne hrel (hother name hpermit rel hrel lo hi hstate hlive)⟩
      cases s with
      | attached lo hi => exact hb
      | detaching lo hi => exact hb
      | loose => cases hb
  | drop name =>
    obtain ⟨-, rfl⟩ | ⟨rfl, -⟩ := hstep
    · exact ⟨fun rel hrel => hnamed rel (Db.mem_remove.1 hrel).1, fun rel hrel lo hi hstate hlive =>
        Db.mem_remove.2 ⟨hrel, hother name hpermit rel hrel lo hi hstate hlive⟩⟩
    · exact hstay

/-- A round keeps the names right, and wherever it stops it has left the partitions that end after its cutoff. -/
theorem maintain_keeps {m : Script (Op E) (Round × Option (Err E))} (hpath : Script.Path step (maintain t now) db m db') (hnamed : Named t db) :
    Named t db' ∧ ∀ rel ∈ db, ∀ lo hi, rel.state = .attached lo hi → cutoff t now < hi → rel ∈ db' := by
  refine Script.Path.invariant (P := Permits t now)
    (I := fun s => Named t s ∧ ∀ rel ∈ db, ∀ lo hi, rel.state = .attached lo hi → cutoff t now < hi → rel ∈ s) ?_ permits_maintain hpath
    ⟨hnamed, fun rel hrel _ _ _ _ => hrel⟩
  intro β o s r s' ho hstep hs
  obtain ⟨hnamed', hkept⟩ := step_keeps o r ho hstep hs.1
  exact ⟨hnamed', fun rel hrel lo hi hstate hlive => hkept rel (hs.2 rel hrel lo hi hstate hlive) lo hi hstate hlive⟩

theorem rounds_named {db₀ : Db} {rounds : List (Time × Round × Option (Err E))} (h : Rounds step t db₀ rounds db) (h₀ : Named t db₀) : Named t db := by
  induction h with
  | nil => exact h₀
  | next _ hround ih => exact (maintain_keeps hround ih).1

end live

/-! ## Rounds whose detaches are followed by their drops -/

/-- A detach that fails has done nothing, and a drop is executed. -/
def whole : {β : Type} → Op E β → Db → β → Db → Prop
  | _, .detach _, db, .error _, db' => db' = db
  | _, .drop name, db, _, db' => db' = db.remove name
  | _, _, _, _, _ => True

def wholeStep {β : Type} (o : Op E β) (db : Db) (r : β) (db' : Db) : Prop := step o db r db' ∧ whole o db r db'

section whole

variable {t : Table} {now : Time} {db db' : Db}

/-- The names are right, and what has the name of a month is attached. -/
structure Regular (t : Table) (db : Db) : Prop where
  named : Named t db
  attached : Attached t db

/-- The partition of a month is attached with the month's bounds. -/
def Holds (t : Table) (db : Db) (m : Int) : Prop :=
  ⟨partitionName t.parent (Calendar.startOf m), .attached (Calendar.startOf m) (Calendar.startOf (m + 1))⟩ ∈ db

/-- The month's name is read as the month. -/
def Readable (m : Int) : Prop := 0 ≤ m / 12 ∧ m / 12 < 10000

theorem Readable.parse {m : Int} (h : Readable m) (t : Table) :
    parsePartitionMonth t.parent (partitionName t.parent (Calendar.startOf m)) = some (Calendar.startOf m) := by
  rw [parsePartitionMonth_name, parseMonth_of_year h.1 h.2]

/-- A relation with the name of a month is the month's partition. -/
theorem Regular.holds {m : Int} (h : Regular t db) (hm : Readable m) {rel : Relation} (hrel : rel ∈ db)
    (hname : rel.name = partitionName t.parent (Calendar.startOf m)) : Holds t db m := by
  have hparse : parsePartitionMonth t.parent rel.name = some (Calendar.startOf m) := hname ▸ hm.parse t
  obtain ⟨lo, hi, hstate⟩ := h.attached rel hrel (by rw [hparse]; exact Option.some_ne_none _)
  have hb := h.named rel hrel (lo, hi) (by rw [hstate]; rfl) _ hparse
  rw [Calendar.addDate_startOf] at hb
  obtain ⟨rfl, rfl⟩ := Prod.mk.inj hb
  obtain ⟨name, state⟩ := rel
  obtain rfl : name = _ := hname
  obtain rfl : state = _ := hstate
  exact hrel

theorem Regular.create {m : Int} (h : Regular t db) :
    Regular t (db.create (partitionName t.parent (Calendar.startOf m)) (Calendar.startOf m) (Calendar.startOf (m + 1))) where
  named rel hrel b hb month hmonth := by
    rcases List.mem_cons.1 hrel with rfl | hrel
    · rw [name_month t hmonth, Calendar.addDate_startOf]
      exact (Option.some.inj hb).symm
    · exact h.named rel hrel b hb month hmonth
  attached rel hrel hmonth := by
    rcases List.mem_cons.1 hrel with rfl | hrel
    · exact ⟨_, _, rfl⟩
    · exact h.attached rel hrel hmonth

theorem Regular.remove (h : Regular t db) (name : String) : Regular t (db.remove name) where
  named rel hrel := h.named rel (Db.mem_remove.1 hrel).1
  attached rel hrel := h.attached rel (Db.mem_remove.1 hrel).1

/-- Where the loop returns without an error the partitions of its months are attached. -/
theorem wp_ensureMonths (is : List Nat) (created : List String) (h : Regular t db) :
    Script.wp wholeStep (ensureMonths t now is created : Script (Op E) _)
      (fun r db' => Regular t db' ∧ (∀ rel ∈ db, rel ∈ db') ∧
        (r.2 = none → ∀ i ∈ is, Readable (monthAt now + i) → Holds t db' (monthAt now + i))) db := by
  induction is generalizing created db with
  | nil => exact ⟨h, fun _ hrel => hrel, fun _ i hi => by cases hi⟩
  | cons i is ih =>
    have hmonth : Calendar.addDate (monthStart now) 0 i 0 = Calendar.startOf (monthAt now + i) := by
      rw [monthStart_eq, Calendar.addDate_startOf]
    -- the rest of the loop keeps the partition once it is there
    have hrest : ∀ {db' : Db} (created : List String), Regular t db' → (∀ rel ∈ db, rel ∈ db') →
        (Readable (monthAt now + i) → Holds t db' (monthAt now + i)) →
        Script.wp wholeStep (ensureMonths t now is created : Script (Op E) _)
          (fun r db'' => Regular t db'' ∧ (∀ rel ∈ db, rel ∈ db'') ∧
            (r.2 = none → ∀ j ∈ i :: is, Readable (monthAt now + j) → Holds t db'' (monthAt now + j))) db' := by
      intro db' created hreg hkept hholds
      refine Script.wp_mono ?_ (ih created hreg)
      rintro r db'' ⟨hreg', hkept', hnone⟩
      refine ⟨hreg', fun rel hrel => hkept' rel (hkept rel hrel), fun hr j hj hread => ?_⟩
      rcases List.mem_cons.1 hj with rfl | hj
      · exact hkept' _ (hholds hread)
      · exact hnone hr j hj hread
    have hstay : ∀ {db' : Db}, Regular t db' → (∀ rel ∈ db, rel ∈ db') → ∀ (created : List String) (e : Err E),
        Regular t db' ∧ (∀ rel ∈ db, rel ∈ db') ∧ ((created, some e).2 = none → ∀ j ∈ i :: is, Readable (monthAt now + j) →
          Holds t db' (monthAt now + j)) := fun hreg hkept _ _ => ⟨hreg, hkept, fun hnone => by cases hnone⟩
    unfold ensureMonths
    dsimp only
    rw [hmonth, Calendar.addDate_startOf]
    rintro r db' ⟨⟨rfl, hr⟩, -⟩
    rcases hr with rfl | ⟨e, rfl⟩
    · cases hattached : db'.attached (partitionName t.parent (Calendar.startOf (monthAt now + i))) with
      | true =>
        obtain ⟨rel, hrel, hname, -⟩ := Db.attached_iff.1 hattached
        exact hrest created h (fun _ hrel => hrel) fun hread => h.holds hread hrel hname
      | false =>
        -- a relation with the name would be attached
        have hnew : ∀ rel ∈ db', rel.name = partitionName t.parent (Calendar.startOf (monthAt now + i)) → ¬ Readable (monthAt now + i) := by
          intro rel hrel hname hread
          have hyes := Db.attached_iff.2 ⟨_, h.holds hread hrel hname, rfl, rfl⟩
          rw [hattached] at hyes
          cases hyes
        rintro r db'' ⟨hstep, -⟩
        obtain ⟨hreg, hkept, hholds⟩ : Regular t db'' ∧ (∀ rel ∈ db', rel ∈ db'') ∧
            ((∃ e, r = .error e) ∨ (Readable (monthAt now + i) → Holds t db'' (monthAt now + i))) := by
          obtain (⟨⟨rel, hrel, hname⟩, rfl⟩ | ⟨-, -, rfl⟩) | ⟨rfl, he⟩ := hstep
          · exact ⟨h, fun _ hrel => hrel, .inr fun hread => absurd hread (hnew rel hrel hname)⟩
          · exact ⟨h.create, fun _ hrel => List.mem_cons_of_mem _ hrel, .inr fun _ => List.mem_cons_self⟩
          · exact ⟨h, fun _ hrel => hrel, .inl he⟩
        cases r with
        | error e => exact hstay hreg hkept _ _
        | ok _ =>
          have hholds : Readable (monthAt now + i) → Holds t db'' (monthAt now + i) := by
            rcases hholds with ⟨e, he⟩ | hholds
            · cases he
            · exact hholds
          rintro r db₃ ⟨⟨rfl, hr⟩, -⟩
          rcases hr with rfl | ⟨e, rfl⟩
          · cases Db.attached _ _ with
            | true => exact hrest _ hreg hkept hholds
            | false => exact hrest _ hreg hkept hholds
          · exact hstay hreg hkept _ _
    · exact hstay h (fun _ hrel => hrel) _ _

/-- Where the loop returns without an error the relations of the expired names are gone, and nothing else is. -/
theorem wp_dropNames (names dropped : List String) (h : Regular t db) :
    Script.wp wholeStep (dropNames t now names dropped : Script (Op E) _)
      (fun r db' => Regular t db' ∧ (∀ rel ∈ db', rel ∈ db) ∧ (∀ rel ∈ db, rel ∈ db' ∨ expired t now rel.name = true) ∧
        (r.2 = none → ∀ name ∈ names, expired t now name = true → ∀ rel ∈ db', rel.name ≠ name)) db := by
  induction names generalizing dropped db with
  | nil => exact ⟨h, fun _ hrel => hrel, fun _ hrel => .inl hrel, fun _ name hname => by cases hname⟩
  | cons name names ih =>
    unfold dropNames
    cases hexpired : expired t now name with
    | false =>
      rw [if_neg (by simp)]
      refine Script.wp_mono ?_ (ih dropped h)
      rintro r db' ⟨hreg, hsub, hkept, hgone⟩
      refine ⟨hreg, hsub, hkept, fun hr n hn hn' => ?_⟩
      rcases List.mem_cons.1 hn with rfl | hn
      · rw [hexpired] at hn'
        cases hn'
      · exact hgone hr n hn hn'
    | true =>
      rw [if_pos rfl]
      have hleft : ∀ rel ∈ db, rel ∈ db.remove name ∨ expired t now rel.name = true := by
        intro rel hrel
        by_cases hname : rel.name = name
        · exact .inr (hname ▸ hexpired)
        · exact .inl (Db.mem_remove.2 ⟨hrel, hname⟩)
      rintro r db' ⟨hstep, hwhole⟩
      cases r with
      | error e =>
        obtain rfl : db' = db := hwhole
        exact ⟨h, fun _ hrel => hrel, fun _ hrel => .inl hrel, fun hnone => by cases hnone⟩
      | ok _ =>
        have hloose : db' = db.loosen name := by
          obtain ⟨-, hdb'⟩ | ⟨-, e, he⟩ := hstep
          · exact hdb'
          · cases he
        rintro r db'' ⟨-, hdrop⟩
        obtain rfl : db'' = db.remove name := by
          have hremoved : db'' = db'.remove name := hdrop
          rw [hremoved, hloose, Db.loosen, Db.remove_set]
        cases r with
        | error e => exact ⟨h.remove name, fun _ hrel => (Db.mem_remove.1 hrel).1, hleft, fun hnone => by cases hnone⟩
        | ok _ =>
          refine Script.wp_mono ?_ (ih _ (h.remove name))
          rintro r db'' ⟨hreg, hsub, hkept, hgone⟩
          refine ⟨hreg, fun rel hrel => (Db.mem_remove.1 (hsub rel hrel)).1, fun rel hrel => ?_, fun hr n hn hn' rel hrel => ?_⟩
          · rcases hleft rel hrel with hrel | hexpired
            · exact hkept rel hrel
            · exact .inr hexpired
          · rcases List.mem_cons.1 hn with rfl | hn
            · exact (Db.mem_remove.1 (hsub rel hrel)).2
            · exact hgone hr n hn hn' rel hrel

/-- Afterwards no relation has the name of an expired month. -/
theorem wp_dropExpired (h : Regular t db) :
    Script.wp wholeStep (dropExpired t now : Script (Op E) _)
      (fun r db' => Regular t db' ∧ (∀ rel ∈ db, rel ∈ db' ∨ expired t now rel.name = true) ∧
        (r.2 = none → ∀ rel ∈ db', expired t now rel.name = false)) db := by
  rintro r db' ⟨⟨rfl, hr⟩, -⟩
  rcases hr with rfl | ⟨e, rfl⟩
  · refine Script.wp_mono ?_ (wp_dropNames _ [] h)
    rintro r db'' ⟨hreg, hsub, hkept, hgone⟩
    refine ⟨hreg, hkept, fun hr rel hrel => Bool.eq_false_iff.2 fun hexpired => ?_⟩
    have hmonth : parsePartitionMonth t.parent rel.name ≠ none := by
      intro hnone
      rw [expired, hnone] at hexpired
      cases hexpired
    obtain ⟨lo, hi, hstate⟩ := h.attached rel (hsub rel hrel) hmonth
    have hlisted : rel.name ∈ db'.inheriting := Db.mem_inheriting.2 ⟨rel, hsub rel hrel, rfl, by rw [hstate]; rfl⟩
    exact hgone hr rel.name hlisted hexpired rel hrel rfl
  · exact ⟨h, fun _ hrel => .inl hrel, fun hnone => by cases hnone⟩

/-- A name that is not expired is one of a month from the cutoff on. -/
theorem not_expired {m : Int} (hm : monthAt now - (t.retention - 1) ≤ m) :
    expired t now (partitionName t.parent (Calendar.startOf m)) = false := by
  unfold expired
  cases hparse : parsePartitionMonth t.parent (partitionName t.parent (Calendar.startOf m)) with
  | none => rfl
  | some month =>
    dsimp only
    rw [name_month t hparse, Calendar.addDate_startOf, cutoff_eq]
    have hlt : Calendar.startOf (monthAt now - (t.retention - 1)) < Calendar.startOf (m + 1) := Calendar.startOf_lt.2 (by omega)
    simp [hlt]

theorem expired_of_lt {m : Int} (hread : Readable m) (hm : m < monthAt now - (t.retention - 1)) :
    expired t now (partitionName t.parent (Calendar.startOf m)) = true := by
  have hle : Calendar.startOf (m + 1) ≤ Calendar.startOf (monthAt now - (t.retention - 1)) := Calendar.startOf_le.2 (by omega)
  rw [expired, hread.parse t]
  dsimp only
  rw [Calendar.addDate_startOf, cutoff_eq]
  exact decide_eq_true (Int.not_lt.2 hle)

/-- What a round leaves: the months ahead are attached and the expired ones are gone, if it was not skipped and has succeeded. -/
theorem wp_maintain (h : Regular t db) :
    Script.wp wholeStep (maintain t now : Script (Op E) _)
      (fun r db' => Regular t db' ∧ (r.2 = none → r.1.skipped = false →
        (∀ i ≤ ensureAhead, Readable (monthAt now + i) → Holds t db' (monthAt now + i)) ∧
        ∀ rel ∈ db', expired t now rel.name = false)) db := by
  rintro r db' ⟨hr, -⟩
  obtain rfl : db' = db := hr
  cases r with
  | error e => exact ⟨h, fun hnone => by cases hnone⟩
  | ok _ =>
    rintro r db' ⟨hr, -⟩
    obtain rfl := hr
    cases r with
    | error e => exact ⟨h, fun hnone => by cases hnone⟩
    | ok yes =>
      cases yes with
      | false => exact ⟨h, fun _ hskipped => by cases hskipped⟩
      | true =>
        refine (Script.wp_bind ..).2 ((Script.wp_bind ..).2 (Script.wp_mono ?_ (wp_ensureMonths _ [] h)))
        rintro ⟨created, err⟩ db₁ ⟨hreg, -, hahead⟩
        cases err with
        | some e =>
          rintro r db₂ ⟨hr, -⟩
          obtain rfl := hr
          exact ⟨hreg, fun hnone => by cases hnone⟩
        | none =>
          refine (Script.wp_bind ..).2 (Script.wp_mono ?_ (wp_dropExpired hreg))
          rintro r db₂ ⟨hreg', hkept, hgone⟩ u db₃ ⟨hr, -⟩
          obtain rfl := hr
          refine ⟨hreg', fun hnone _ => ⟨fun i hi hread => ?_, hgone hnone⟩⟩
          have hholds := hahead rfl i (List.mem_range.2 (Nat.lt_succ_of_le hi)) hread
          rcases hkept _ hholds with hmem | hexpired
          · exact hmem
          · have hpos := retention_pos t
            rw [not_expired (by omega)] at hexpired
            cases hexpired

theorem rounds_regular {db₀ : Db} {rounds : List (Time × Round × Option (Err E))} (h : Rounds wholeStep t db₀ rounds db)
    (h₀ : Regular t db₀) : Regular t db := by
  induction h with
  | nil => exact h₀
  | next _ hround ih => exact (Script.wp_path (wp_maintain ih) hround).1

end whole

/-! ## Runs -/

/-- In every run a round, wherever it stops, has left alone the partitions that have an instant of the retained months or
a later one. If no detach takes effect without its drop, then after a round that succeeds the months from now through
`ensureAhead` ahead are attached, and no relation has the name of an expired month. -/
theorem partitions_maintained (t : Table) {db₀ : Db} (hnamed : Named t db₀) :
    (∀ {rounds : List (Time × Round × Option (Err E))} {db : Db}, Rounds step t db₀ rounds db →
      ∀ {now : Time} {m : Script (Op E) (Round × Option (Err E))} {db' : Db}, Script.Path step (maintain t now) db m db' →
      ∀ rel ∈ db, ∀ lo hi x, rel.state = .attached lo hi → lo ≤ x → x < hi →
        Calendar.startOf (monthAt now - (t.retention - 1)) ≤ x → rel ∈ db') ∧
    (Attached t db₀ → ∀ {rounds : List (Time × Round × Option (Err E))} {db : Db}, Rounds wholeStep t db₀ rounds db →
      ∀ {now : Time} {r : Round} {db' : Db}, Script.Path wholeStep (maintain t now : Script (Op E) _) db (.ret (r, none)) db' → r.skipped = false →
      (∀ i ≤ ensureAhead, Readable (monthAt now + i) →
        ⟨partitionName t.parent (Calendar.startOf (monthAt now + i)),
          .attached (Calendar.startOf (monthAt now + i)) (Calendar.startOf (monthAt now + i + 1))⟩ ∈ db') ∧
      ∀ m, Readable m → m < monthAt now - (t.retention - 1) → ∀ rel ∈ db', rel.name ≠ partitionName t.parent (Calendar.startOf m)) := by
  refine ⟨fun hrounds _ _ _ hpath rel hrel lo hi x hstate _ hx hlive => ?_, fun hattached _ _ hrounds _ r db' hpath hskipped => ?_⟩
  · refine (maintain_keeps hpath (rounds_named hrounds hnamed)).2 rel hrel lo hi hstate ?_
    rw [cutoff_eq]
    exact Int.lt_of_le_of_lt hlive hx
  · obtain ⟨-, hdone⟩ := Script.wp_path (wp_maintain (rounds_regular hrounds ⟨hnamed, hattached⟩)) hpath
    obtain ⟨hahead, hgone⟩ := hdone rfl hskipped
    refine ⟨hahead, fun m hread hm rel hrel hname => ?_⟩
    have hnot := hgone rel hrel
    rw [hname, expired_of_lt hread hm] at hnot
    cases hnot

/-! ## A drop that fails -/

/-- A database whose drops fail, or in which nothing fails. -/
def serve (dropFails : Bool) : {β : Type} → Op Unit β → Db → β × Db
  | _, .acquire, db => (.ok (), db)
  | _, .tryAdvisoryLock _, db => (.ok true, db)
  | _, .advisoryUnlock _, db => ((), db)
  | _, .partitionAttached name, db => (.ok (db.attached name), db)
  | _, .listPartitions, db => (.ok db.inheriting, db)
  | _, .createPartition name lower upper, db =>
    if db.any (fun rel => rel.name = name) then (.ok (), db)
    else if db.overlaps lower upper then (.error (), db)
    else (.ok (), db.create name lower upper)
  | _, .detach name, db =>
    if db.any (fun rel => rel.name = name && rel.state.inherits) && db.all (fun rel => match rel.state with
      | .detaching _ _ => false
      | _ => true)
    then (.ok (), db.loosen name) else (.error (), db)
  | _, .drop name, db => if dropFails = false ∧ db.any (fun rel => rel.name = name) then (.ok (), db.remove name) else (.error (), db)

theorem step_serve (dropFails : Bool) {β : Type} (o : Op Unit β) (db : Db) : step o db (serve dropFails o db).1 (serve dropFails o db).2 := by
  cases o with
  | acquire => rfl
  | tryAdvisoryLock _ => rfl
  | advisoryUnlock _ => rfl
  | partitionAttached _ => exact ⟨rfl, .inl rfl⟩
  | listPartitions => exact ⟨rfl, .inl rfl⟩
  | createPartition name lower upper =>
    simp only [serve]
    split
    · rename_i hexists
      exact .inl (.inl ⟨by simpa using hexists, rfl⟩)
    · rename_i hnew
      split
      · exact .inr ⟨rfl, _, rfl⟩
      · rename_i hfree
        exact .inl (.inr ⟨by simpa using hnew, by simpa using hfree, rfl⟩)
  | detach name =>
    simp only [serve]
    split
    · rename_i hcan
      refine .inl ⟨?_, rfl⟩
      simp only [Bool.and_eq_true, List.any_eq_true, List.all_eq_true, decide_eq_true_eq] at hcan
      obtain ⟨⟨rel, hrel, hname, hin⟩, hnone⟩ := hcan
      have hnone' : ∀ rel ∈ db, ∀ lo hi, rel.state ≠ .detaching lo hi := by
        intro rel hrel lo hi hstate
        have hno := hnone rel hrel
        rw [hstate] at hno
        cases hno
      refine ⟨⟨rel, hrel, ?_⟩, hnone'⟩
      cases hstate : rel.state with
      | attached lo hi => exact ⟨lo, hi, hname, rfl⟩
      | detaching lo hi => exact absurd hstate (hnone' rel hrel lo hi)
      | loose =>
        rw [hstate] at hin
        cases hin
    · exact .inr ⟨.inl rfl, _, rfl⟩
  | drop name =>
    simp only [serve]
    split
    · rename_i hcan
      exact .inl ⟨by simpa using hcan.2, rfl⟩
    · exact .inr ⟨rfl, _, rfl⟩

/-- A table that keeps one month. -/
def sampleTable : Table := ⟨"audit_event", 1⟩

/-- January 2019 is expired at a time in 2020. -/
def sampleDb : Db :=
  [⟨partitionName "audit_event" (Calendar.startOf (2019 * 12)), .attached (Calendar.startOf (2019 * 12)) (Calendar.startOf (2019 * 12 + 1))⟩]

def sampleNow : Time := Calendar.startOf (2020 * 12 + 5)

/-- A drop fails after its detach. The next round at the same time succeeds, and the expired table is still there. -/
theorem failed_drop_kept : ∃ (r₁ r₂ : Round) (e : Err Unit) (db₁ db₂ : Db),
    Script.Path step (maintain sampleTable sampleNow : Script (Op Unit) _) sampleDb (.ret (r₁, some e)) db₁ ∧
      Script.Path step (maintain sampleTable sampleNow : Script (Op Unit) _) db₁ (.ret (r₂, none)) db₂ ∧ r₂.skipped = false ∧
      (2019 * 12 < monthAt sampleNow - (sampleTable.retention - 1)) ∧
      ∃ rel ∈ db₂, rel.name = partitionName "audit_event" (Calendar.startOf (2019 * 12)) := by
  have hfirst := Script.run_path (fun o => step_serve true o) (maintain sampleTable sampleNow) sampleDb
  have hsecond := Script.run_path (fun o => step_serve false o) (maintain sampleTable sampleNow)
    ((maintain sampleTable sampleNow).run (serve true) sampleDb).2
  have hfailed : ((maintain sampleTable sampleNow).run (serve true) sampleDb).1.2 = some (.dropDetached "audit_event_2019_01" ()) := by
    decide
  have hdone : ((maintain sampleTable sampleNow).run (serve false) ((maintain sampleTable sampleNow).run (serve true) sampleDb).2).1 = ({}, none) := by
    decide +kernel
  rw [← Prod.mk.eta (p := ((maintain sampleTable sampleNow).run (serve true) sampleDb).1), hfailed] at hfirst
  rw [hdone] at hsecond
  exact ⟨_, _, _, _, _, hfirst, hsecond, rfl, by decide, ⟨"audit_event_2019_01", .loose⟩, by decide, by decide⟩

theorem wholeStep_serve {β : Type} (o : Op Unit β) (db : Db) : wholeStep o db (serve false o db).1 (serve false o db).2 := by
  refine ⟨step_serve false o db, ?_⟩
  cases o with
  | detach name =>
    simp only [serve]
    split
    · trivial
    · rfl
  | drop name =>
    simp only [serve]
    split
    · rfl
    · rename_i habsent
      refine (List.filter_eq_self.2 fun rel hrel => ?_).symm
      have hne : rel.name ≠ name := fun hname => habsent ⟨trivial, List.any_eq_true.2 ⟨rel, hrel, decide_eq_true hname⟩⟩
      simpa using hne
  | _ => trivial

/-- A round that drops the expired month and has this month's partition attached. -/
theorem partitions_maintained_sample : ∃ db' : Db,
    Script.Path wholeStep (maintain sampleTable sampleNow : Script (Op Unit) _) sampleDb
      (.ret ({ created := ["audit_event_2020_06", "audit_event_2020_07", "audit_event_2020_08"], dropped := ["audit_event_2019_01"] }, none)) db' ∧
      (∀ i ≤ ensureAhead, Readable (monthAt sampleNow + i) →
        ⟨partitionName sampleTable.parent (Calendar.startOf (monthAt sampleNow + i)),
          .attached (Calendar.startOf (monthAt sampleNow + i)) (Calendar.startOf (monthAt sampleNow + i + 1))⟩ ∈ db') ∧
      ∀ m, Readable m → m < monthAt sampleNow - (sampleTable.retention - 1) →
        ∀ rel ∈ db', rel.name ≠ partitionName sampleTable.parent (Calendar.startOf m) := by
  have hpath := Script.run_path wholeStep_serve (maintain sampleTable sampleNow) sampleDb
  have hdone : ((maintain sampleTable sampleNow).run (serve false) sampleDb).1 =
      ({ created := ["audit_event_2020_06", "audit_event_2020_07", "audit_event_2020_08"], dropped := ["audit_event_2019_01"] }, none) := by
    decide
  rw [hdone] at hpath
  have hread : parsePartitionMonth sampleTable.parent (partitionName "audit_event" (Calendar.startOf (2019 * 12))) =
      some (Calendar.startOf (2019 * 12)) := by decide
  have hnamed : Named sampleTable sampleDb := by
    intro rel hrel b hb month hmonth
    obtain rfl := List.mem_singleton.1 hrel
    rw [hread] at hmonth
    cases hmonth
    rw [Calendar.addDate_startOf]
    exact (Option.some.inj hb).symm
  have hattached : Attached sampleTable sampleDb := by
    intro rel hrel _
    obtain rfl := List.mem_singleton.1 hrel
    exact ⟨_, _, rfl⟩
  exact ⟨_, hpath, (partitions_maintained sampleTable hnamed).2 hattached .nil hpath rfl⟩

end Ploykit.Pgpart

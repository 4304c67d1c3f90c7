import Ploykit.Lib.Labelled
import Ploykit.Lib.Calendar

/-!
# Deduplicated notifications

`NotifyService` of `notify/app/service.go` over the table of `notify/adapters/bell/pgrepo.go`. What was sent is remembered by the
rows themselves: a dedup key is stored after the type and a colon, under an index over the user and the stored key, and
`NotifyOncePerMonth` has an index of its own over the user, the type and the UTC month. The retention sweep deletes rows.

A statement that fails changes nothing and is no step.
-/

namespace Ploykit.Notify

open Lib Lib.Calendar

/-! ## Rows -/

structure NotifyInput where
  UserID : String
  typ : String
  Title : String := ""
  Body : String := ""
  Link : String := ""
  Workspace : String := ""
  DedupKey : String := ""
  OncePerMonth : Bool := false

structure Notification where
  id : String
  user_id : String
  workspace_id : Option String
  typ : String
  title : String
  body : String
  link : Option String
  dedup_key : Option String
  once_per_month : Bool
  read_at : Option Time := none
  archived_at : Option Time := none
  created_at : Time
  /-- For the record: `NotifyOncePerMonth` inserted it. -/
  monthly : Bool

/-- `NULLIF(s, '')` -/
def nullif (s : String) : Option String := if s = "" then none else some s

/-- `date_trunc('month', t AT TIME ZONE 'UTC')` -/
def month (t : Time) : Int := monthOf (t / microsPerDay)

/-- What the two indexes look at. -/
structure Mark where
  user_id : String
  typ : String
  dedup_key : Option String
  once_per_month : Bool
  month : Int
  monthly : Bool
  deriving DecidableEq

def Notification.mark (r : Notification) : Mark :=
  ⟨r.user_id, r.typ, r.dedup_key, r.once_per_month, Notify.month r.created_at, r.monthly⟩

/-- uq_notification_dedup and uq_notification_month -/
def Mark.Conflicts (m m' : Mark) : Prop :=
  (m.user_id = m'.user_id ∧ m.dedup_key.isSome ∧ m.dedup_key = m'.dedup_key) ∨
    (m.user_id = m'.user_id ∧ m.typ = m'.typ ∧ m.month = m'.month ∧ m.once_per_month = true ∧ m'.once_per_month = true)

instance (m m' : Mark) : Decidable (m.Conflicts m') := inferInstanceAs (Decidable (_ ∨ _))

/-- The table, and for the record the rows that sweeps have deleted from it. -/
structure Bell where
  rows : List Notification := []
  gone : List Notification := []

/-! ## Calls -/

inductive Reply where
  | inserted
  | suppressed
  /-- The preferences of the user do not permit it. -/
  | muted
  | done
  | notFound
  deriving DecidableEq

/-- What the preference gate answers: there may be none, and it may fail. -/
abbrev Gate := Option (Except Unit Bool)

def inAppAllowed : Gate → Bool
  | none => true
  | some (.error _) => true
  | some (.ok ok) => ok

inductive Call where
  | notify (gate : Gate) (input : NotifyInput) (now : Time) (id : String)
  | notifyOncePerMonth (gate : Gate) (input : NotifyInput) (now : Time) (id : String)
  | markRead (userID notificationID : String) (now : Time)
  | markAllRead (userID : String) (now : Time)
  | archive (userID notificationID : String) (now : Time)
  /-- With the rows that its LIMIT has left. -/
  | deleteAged (archivedTTL readTTL : Time) (batch : Nat) (now : Time) (picked : List String)

namespace Bell

variable (s : Bell)

/-- The row that `Insert` writes. -/
def row (n : NotifyInput) (now : Time) (id : String) (monthly : Bool) : Notification where
  id := id
  user_id := n.UserID
  workspace_id := nullif n.Workspace
  typ := n.typ
  title := n.Title
  body := n.Body
  link := nullif n.Link
  dedup_key := nullif n.DedupKey
  once_per_month := n.OncePerMonth
  created_at := now
  monthly := monthly

def insert (n : NotifyInput) (now : Time) (id : String) (monthly : Bool) : Reply × Bell :=
  if ∃ r ∈ s.rows, (row n now id monthly).mark.Conflicts r.mark then (.suppressed, s)
  else (.inserted, { s with rows := s.rows ++ [row n now id monthly] })

def notify (gate : Gate) (input : NotifyInput) (now : Time) (id : String) : Reply × Bell :=
  if inAppAllowed gate = false then (.muted, s)
  else if input.DedupKey ≠ "" then
    s.insert { input with DedupKey := input.typ ++ ":" ++ input.DedupKey, OncePerMonth := false } now id false
  else s.insert input now id false

def notifyOncePerMonth (gate : Gate) (input : NotifyInput) (now : Time) (id : String) : Reply × Bell :=
  if inAppAllowed gate = false then (.muted, s)
  else s.insert { input with DedupKey := "", OncePerMonth := true } now id true

/-- UPDATE of the rows for which the condition holds. -/
def update (c : Notification → Bool) (f : Notification → Notification) : Bell :=
  { s with rows := s.rows.map fun r => if c r then f r else r }

def markRead (userID notificationID : String) (now : Time) : Reply × Bell :=
  (if s.rows.any fun r => r.id = notificationID ∧ r.user_id = userID then .done else .notFound,
    s.update (fun r => r.id = notificationID ∧ r.user_id = userID ∧ r.read_at = none) fun r => { r with read_at := some now })

def markAllRead (userID : String) (now : Time) : Reply × Bell :=
  (.done, s.update (fun r => r.user_id = userID ∧ r.read_at = none) fun r => { r with read_at := some now })

def archive (userID notificationID : String) (now : Time) : Reply × Bell :=
  (if s.rows.any fun r => r.id = notificationID ∧ r.user_id = userID then .done else .notFound,
    s.update (fun r => r.id = notificationID ∧ r.user_id = userID) fun r =>
      { r with archived_at := some now, read_at := r.read_at.or (some now) })

/-- The rows that a sweep may delete. -/
def aged (archivedTTL readTTL now : Time) (r : Notification) : Bool :=
  match r.archived_at, r.read_at with
  | some t, _ => t < now - archivedTTL
  | none, some t => t < now - readTTL
  | none, none => false

def deleteAged (picked : List String) : Reply × Bell :=
  (.done, { rows := s.rows.filter fun r => r.id ∉ picked, gone := s.gone ++ s.rows.filter fun r => r.id ∈ picked })

def answer : Call → Reply × Bell
  | .notify gate input now id => s.notify gate input now id
  | .notifyOncePerMonth gate input now id => s.notifyOncePerMonth gate input now id
  | .markRead userID notificationID now => s.markRead userID notificationID now
  | .markAllRead userID now => s.markAllRead userID now
  | .archive userID notificationID now => s.archive userID notificationID now
  | .deleteAged _ _ _ _ picked => s.deleteAged picked

/-- A drawn id is new, and a sweep picks as many of the aged rows as its batch lets it. -/
def Possible : Call → Prop
  | .notify _ _ _ id | .notifyOncePerMonth _ _ _ id => id ∉ s.rows.map Notification.id
  | .deleteAged archivedTTL readTTL batch now picked =>
    (picked.Nodup ∧ ∀ i ∈ picked, i ∈ (s.rows.filter (aged archivedTTL readTTL now)).map Notification.id) ∧
      picked.length = min batch (s.rows.filter (aged archivedTTL readTTL now)).length
  | _ => True

instance (c : Call) : Decidable (s.Possible c) := by
  cases c <;> unfold Possible <;> infer_instance

/-- A call, atomic in the database, with its reply. -/
def step (e : Call × Reply) : Option Bell :=
  if s.Possible e.1 ∧ (s.answer e.1).1 = e.2 then some (s.answer e.1).2 else none

end Bell

/-! ## What was sent -/

/-- What a call inserts, if it does. -/
def Call.mark : Call → Option Mark
  | .notify _ i now id =>
    if i.DedupKey ≠ "" then
      some (Bell.row { i with DedupKey := i.typ ++ ":" ++ i.DedupKey, OncePerMonth := false } now id false).mark
    else some (Bell.row i now id false).mark
  | .notifyOncePerMonth _ i now id => some (Bell.row { i with DedupKey := "", OncePerMonth := true } now id true).mark
  | _ => none

/-- A notification for the same user with the same type and the same dedup key was inserted. -/
def SentBefore (es : List (Call × Reply)) (i : NotifyInput) : Prop :=
  ∃ gate j now id, (Call.notify gate j now id, Reply.inserted) ∈ es ∧
    j.UserID = i.UserID ∧ j.typ = i.typ ∧ j.DedupKey = i.DedupKey

/-- `NotifyOncePerMonth` inserted one of the same user and type in the same month. -/
def SentThisMonth (es : List (Call × Reply)) (i : NotifyInput) (now : Time) : Prop :=
  ∃ gate j then' id, (Call.notifyOncePerMonth gate j then' id, Reply.inserted) ∈ es ∧
    j.UserID = i.UserID ∧ j.typ = i.typ ∧ month then' = month now

/-- After the events `es` a permitted notification is suppressed if and only if it was sent before. -/
def Exact (es : List (Call × Reply)) (e : Call × Reply) : Prop :=
  match e.1 with
  | .notify gate i _ _ => inAppAllowed gate = true → i.DedupKey ≠ "" → (e.2 = .suppressed ↔ SentBefore es i)
  | .notifyOncePerMonth gate i now _ => inAppAllowed gate = true → (e.2 = .suppressed ↔ SentThisMonth es i now)
  | _ => True

namespace Mark

/-- The row of the same notification. -/
def Sends (i : NotifyInput) (m : Mark) : Prop :=
  m.user_id = i.UserID ∧ m.typ = i.typ ∧ m.dedup_key = some (i.typ ++ ":" ++ i.DedupKey)

/-- A row of another type whose type and key run together into the same text. -/
def Collides (i : NotifyInput) (m : Mark) : Prop :=
  m.user_id = i.UserID ∧ m.typ ≠ i.typ ∧ m.dedup_key = some (i.typ ++ ":" ++ i.DedupKey)

def SendsMonthly (i : NotifyInput) (now : Time) (m : Mark) : Prop :=
  m.user_id = i.UserID ∧ m.typ = i.typ ∧ m.month = Notify.month now ∧ m.monthly = true

/-- A row of the month's index that `Notify` has inserted. -/
def Occupies (i : NotifyInput) (now : Time) (m : Mark) : Prop :=
  m.user_id = i.UserID ∧ m.typ = i.typ ∧ m.month = Notify.month now ∧ m.once_per_month = true ∧ m.monthly = false

end Mark

/-- The row that remembers the notification is still there; or none was deleted and no other row stands in for it (or both). -/
def Bell.Remembers (s : Bell) : Call → Prop
  | .notify gate i _ _ => inAppAllowed gate = true → i.DedupKey ≠ "" →
    (∃ r ∈ s.rows, r.mark.Sends i) ∨ ((∃ r ∈ s.rows, r.mark.Collides i) ↔ ∃ r ∈ s.gone, r.mark.Sends i)
  | .notifyOncePerMonth gate i now _ => inAppAllowed gate = true →
    (∃ r ∈ s.rows, r.mark.SendsMonthly i now) ∨
      ((∃ r ∈ s.rows, r.mark.Occupies i now) ↔ ∃ r ∈ s.gone, r.mark.SendsMonthly i now)
  | _ => True

/-! ## What a call leaves -/

namespace Bell

variable {s : Bell}

/-- The marks of all that was ever inserted. -/
def marks (s : Bell) : List Mark := (s.rows ++ s.gone).map Notification.mark

theorem update_marks {c : Notification → Bool} {f : Notification → Notification} (hf : ∀ r, (f r).mark = r.mark) :
    (s.update c f).marks = s.marks := by
  have hmark : ∀ r, (if c r then f r else r).mark = r.mark := by
    intro r
    split
    · exact hf r
    · rfl
  simp only [marks, update, List.map_append, List.map_map, Function.comp_def, hmark]

theorem deleteAged_marks (picked : List String) (m : Mark) : m ∈ (s.deleteAged picked).2.marks ↔ m ∈ s.marks := by
  have hrows : ∀ r, (r ∈ s.rows ∧ r.id ∉ picked ∨ r ∈ s.gone ∨ r ∈ s.rows ∧ r.id ∈ picked) ↔ r ∈ s.rows ∨ r ∈ s.gone := by
    intro r
    tauto
  simp only [marks, deleteAged, List.mem_map, List.mem_append, List.mem_filter, decide_eq_true_eq, hrows]

theorem insert_marks {n : NotifyInput} {now : Time} {id : String} {monthly : Bool} (m : Mark) :
    m ∈ (s.insert n now id monthly).2.marks ↔
      m ∈ s.marks ∨ (s.insert n now id monthly).1 = .inserted ∧ (row n now id monthly).mark = m := by
  unfold insert
  split
  · simp
  · simp only [marks, List.map_append, List.map_cons, List.map_nil, List.mem_append, List.mem_singleton, true_and]
    tauto

theorem insert_suppressed {n : NotifyInput} {now : Time} {id : String} {monthly : Bool} :
    (s.insert n now id monthly).1 = .suppressed ↔ ∃ r ∈ s.rows, (row n now id monthly).mark.Conflicts r.mark := by
  unfold insert
  split
  · simp_all
  · simp_all

theorem notify_keyed {gate : Gate} {i : NotifyInput} {now : Time} {id : String} (hallowed : inAppAllowed gate = true)
    (hkey : i.DedupKey ≠ "") : s.notify gate i now id
      = s.insert { i with DedupKey := i.typ ++ ":" ++ i.DedupKey, OncePerMonth := false } now id false := by
  simp [notify, hallowed, hkey]

/-- A call adds to what was ever inserted exactly what its reply says. -/
theorem answer_marks (c : Call) (m : Mark) :
    m ∈ (s.answer c).2.marks ↔ m ∈ s.marks ∨ (s.answer c).1 = .inserted ∧ c.mark = some m := by
  cases c with
  | notify gate i now id =>
    simp only [answer, notify, Call.mark]
    split
    · simp
    · split
      · simpa using insert_marks m
      · simpa using insert_marks m
  | notifyOncePerMonth gate i now id =>
    simp only [answer, notifyOncePerMonth, Call.mark]
    split
    · simp
    · simpa using insert_marks m
  | markRead userID notificationID now =>
    have hmarks : (s.answer (.markRead userID notificationID now)).2.marks = s.marks := update_marks fun _ => rfl
    simp [hmarks, Call.mark]
  | markAllRead userID now =>
    have hmarks : (s.answer (.markAllRead userID now)).2.marks = s.marks := update_marks fun _ => rfl
    simp [hmarks, Call.mark]
  | archive userID notificationID now =>
    have hmarks : (s.answer (.archive userID notificationID now)).2.marks = s.marks := update_marks fun _ => rfl
    simp [hmarks, Call.mark]
  | deleteAged archivedTTL readTTL batch now picked => simpa [answer, Call.mark] using deleteAged_marks picked m

/-- In every run the rows, those of the table and those that are gone, are what was inserted. -/
theorem mem_marks {ok : Bell → Call × Reply → Prop} {es : List (Call × Reply)} (h : Trace step ok {} es s) (m : Mark) :
    m ∈ s.marks ↔ ∃ e ∈ es, e.2 = .inserted ∧ e.1.mark = some m := by
  refine h.invariant (P := fun es s => m ∈ s.marks ↔ ∃ e ∈ es, e.2 = .inserted ∧ e.1.mark = some m) (by simp [marks]) ?_
  intro es e s s' _ ih _ hs
  obtain ⟨⟨-, hreply⟩, rfl⟩ : (s.Possible e.1 ∧ (s.answer e.1).1 = e.2) ∧ (s.answer e.1).2 = s' := by
    simpa [step] using hs
  rw [answer_marks, ih, hreply]
  simp [or_and_right, exists_or]

theorem exists_marks {P : Mark → Prop} :
    (∃ m ∈ s.marks, P m) ↔ (∃ r ∈ s.rows, P r.mark) ∨ ∃ r ∈ s.gone, P r.mark := by
  simp only [marks, List.mem_map, List.mem_append, exists_exists_and_eq_and, or_and_right, exists_or]

end Bell

/-! ## Suppressed and sent before -/

theorem stored_ne (typ key : String) : typ ++ ":" ++ key ≠ "" := by
  simp [String.append_eq_empty_iff]

theorem stored_inj {typ key key' : String} : typ ++ ":" ++ key = typ ++ ":" ++ key' ↔ key = key' :=
  String.append_right_inj _

/-- A call that inserts the row of a keyed notification is one for the same user, type and key. -/
theorem call_sends {c : Call} {i : NotifyInput} (hkey : i.DedupKey ≠ "") : (∃ m, c.mark = some m ∧ m.Sends i) ↔
    ∃ gate j now id, c = .notify gate j now id ∧ j.UserID = i.UserID ∧ j.typ = i.typ ∧ j.DedupKey = i.DedupKey := by
  constructor
  · rintro ⟨m, hm, huser, htyp, hdedup⟩
    cases c with
    | notify gate j now id =>
      simp only [Call.mark] at hm
      split at hm
      · obtain rfl := Option.some.inj hm
        simp only [Notification.mark, Bell.row, nullif, if_neg (stored_ne _ _)] at huser htyp hdedup
        rw [htyp] at hdedup
        exact ⟨gate, j, now, id, rfl, huser, htyp, stored_inj.1 (Option.some.inj hdedup)⟩
      · rename_i hno
        obtain rfl := Option.some.inj hm
        simp [Notification.mark, Bell.row, nullif, not_not.1 hno] at hdedup
    | notifyOncePerMonth gate j now id =>
      obtain rfl := Option.some.inj hm
      simp [Notification.mark, Bell.row, nullif] at hdedup
    | markRead | markAllRead | archive | deleteAged => cases hm
  · rintro ⟨gate, j, now, id, rfl, huser, htyp, hsame⟩
    refine ⟨_, if_pos (hsame ▸ hkey), huser, htyp, ?_⟩
    simp [Notification.mark, Bell.row, nullif, htyp, hsame]

theorem call_sendsMonthly {c : Call} {i : NotifyInput} {now : Time} : (∃ m, c.mark = some m ∧ m.SendsMonthly i now) ↔
    ∃ gate j then' id, c = .notifyOncePerMonth gate j then' id ∧ j.UserID = i.UserID ∧ j.typ = i.typ ∧ month then' = month now := by
  constructor
  · rintro ⟨m, hm, huser, htyp, hmonth, hmonthly⟩
    cases c with
    | notify gate j then' id =>
      simp only [Call.mark] at hm
      split at hm
      all_goals
        obtain rfl := Option.some.inj hm
        cases hmonthly
    | notifyOncePerMonth gate j then' id =>
      obtain rfl := Option.some.inj hm
      exact ⟨gate, j, then', id, rfl, huser, htyp, hmonth⟩
    | markRead | markAllRead | archive | deleteAged => cases hm
  · rintro ⟨gate, j, then', id, rfl, huser, htyp, hmonth⟩
    exact ⟨_, rfl, huser, htyp, hmonth, rfl⟩

section runs

variable {ok : Bell → Call × Reply → Prop} {es : List (Call × Reply)} {s : Bell}

theorem sentBefore_iff (h : Trace Bell.step ok {} es s) {i : NotifyInput} (hkey : i.DedupKey ≠ "") :
    SentBefore es i ↔ (∃ r ∈ s.rows, r.mark.Sends i) ∨ ∃ r ∈ s.gone, r.mark.Sends i := by
  rw [← Bell.exists_marks]
  simp only [Bell.mem_marks h]
  constructor
  · rintro ⟨gate, j, now, id, hmem, hsame⟩
    obtain ⟨m, hm, hsends⟩ := (call_sends hkey).2 ⟨gate, j, now, id, rfl, hsame⟩
    exact ⟨m, ⟨_, hmem, rfl, hm⟩, hsends⟩
  · rintro ⟨m, ⟨⟨c, reply⟩, hmem, rfl, hm⟩, hsends⟩
    obtain ⟨gate, j, now, id, rfl, hsame⟩ := (call_sends hkey).1 ⟨m, hm, hsends⟩
    exact ⟨gate, j, now, id, hmem, hsame⟩

theorem sentThisMonth_iff (h : Trace Bell.step ok {} es s) {i : NotifyInput} {now : Time} :
    SentThisMonth es i now ↔ (∃ r ∈ s.rows, r.mark.SendsMonthly i now) ∨ ∃ r ∈ s.gone, r.mark.SendsMonthly i now := by
  rw [← Bell.exists_marks]
  simp only [Bell.mem_marks h]
  constructor
  · rintro ⟨gate, j, then', id, hmem, hsame⟩
    obtain ⟨m, hm, hsends⟩ := call_sendsMonthly.2 ⟨gate, j, then', id, rfl, hsame⟩
    exact ⟨m, ⟨_, hmem, rfl, hm⟩, hsends⟩
  · rintro ⟨m, ⟨⟨c, reply⟩, hmem, rfl, hm⟩, hsends⟩
    obtain ⟨gate, j, then', id, rfl, hsame⟩ := call_sendsMonthly.1 ⟨m, hm, hsends⟩
    exact ⟨gate, j, then', id, hmem, hsame⟩

/-- A keyed notification is suppressed by the row of the same notification or by one that collides with it. -/
theorem notify_suppressed {gate : Gate} {i : NotifyInput} {now : Time} {id : String} (hallowed : inAppAllowed gate = true)
    (hkey : i.DedupKey ≠ "") : (s.notify gate i now id).1 = .suppressed ↔
      (∃ r ∈ s.rows, r.mark.Sends i) ∨ ∃ r ∈ s.rows, r.mark.Collides i := by
  have hconflicts : ∀ r : Notification,
      (Bell.row { i with DedupKey := i.typ ++ ":" ++ i.DedupKey, OncePerMonth := false } now id false).mark.Conflicts r.mark ↔
        r.mark.Sends i ∨ r.mark.Collides i := by
    intro r
    simp only [Mark.Conflicts, Mark.Sends, Mark.Collides, Notification.mark, Bell.row, nullif, if_neg (stored_ne _ _),
      Option.isSome_some, eq_comm (a := i.UserID), eq_comm (a := some (i.typ ++ ":" ++ i.DedupKey))]
    by_cases htyp : r.typ = i.typ
    · simp [htyp]
    · simp [htyp]
  simp only [Bell.notify_keyed hallowed hkey, Bell.insert_suppressed, hconflicts, and_or_left, exists_or]

/-- The rows of `NotifyOncePerMonth` are in the index of the month. -/
theorem once_of_monthly {c : Call} {m : Mark} (hm : c.mark = some m) (hmonthly : m.monthly = true) : m.once_per_month = true := by
  cases c with
  | notify gate j then' id =>
    simp only [Call.mark] at hm
    split at hm
    all_goals
      obtain rfl := Option.some.inj hm
      cases hmonthly
  | notifyOncePerMonth gate j then' id => exact Option.some.inj hm ▸ rfl
  | markRead | markAllRead | archive | deleteAged => cases hm

theorem notifyOncePerMonth_suppressed {gate : Gate} {i : NotifyInput} {now : Time} {id : String}
    (hallowed : inAppAllowed gate = true) (hmonthly : ∀ m ∈ s.marks, m.monthly = true → m.once_per_month = true) :
    (s.notifyOncePerMonth gate i now id).1 = .suppressed ↔
      (∃ r ∈ s.rows, r.mark.SendsMonthly i now) ∨ ∃ r ∈ s.rows, r.mark.Occupies i now := by
  have hnotify : s.notifyOncePerMonth gate i now id
      = s.insert { i with DedupKey := "", OncePerMonth := true } now id true := by
    simp [Bell.notifyOncePerMonth, hallowed]
  have hconflicts : ∀ r ∈ s.rows,
      ((Bell.row { i with DedupKey := "", OncePerMonth := true } now id true).mark.Conflicts r.mark ↔
        r.mark.SendsMonthly i now ∨ r.mark.Occupies i now) := by
    intro r hr
    have honce := hmonthly r.mark (List.mem_map_of_mem (List.mem_append_left _ hr))
    simp only [Mark.Conflicts, Mark.SendsMonthly, Mark.Occupies, Notification.mark, Bell.row, nullif, if_true,
      Option.isSome_none, Bool.false_eq_true, false_and, and_false, false_or, true_and, eq_comm (a := i.UserID),
      eq_comm (a := i.typ), eq_comm (a := month now)] at honce ⊢
    cases hm : r.monthly
    · simp
    · simp [honce hm]
  rw [hnotify, Bell.insert_suppressed, ← exists_or]
  refine exists_congr fun r => ?_
  rw [← and_or_left]
  exact and_congr_right fun hr => hconflicts r hr

theorem or_iff_or_left {a b c : Prop} : (a ∨ b ↔ a ∨ c) ↔ a ∨ (b ↔ c) := by
  by_cases ha : a <;> simp [ha]

/-- In every state that a run reaches, a call is answered exactly if and only if what it asks for is remembered. -/
theorem exact_iff (h : Trace Bell.step ok {} es s) {e : Call × Reply} {s' : Bell} (hs : s.step e = some s') :
    Exact es e ↔ s.Remembers e.1 := by
  obtain ⟨c, reply⟩ := e
  obtain ⟨⟨-, rfl⟩, rfl⟩ : (s.Possible c ∧ (s.answer c).1 = reply) ∧ (s.answer c).2 = s' := by
    simpa [Bell.step] using hs
  cases c with
  | notify gate i now id =>
    refine forall_congr' fun hallowed => forall_congr' fun hkey => ?_
    simp only [Bell.answer, notify_suppressed hallowed hkey, sentBefore_iff h hkey]
    exact or_iff_or_left
  | notifyOncePerMonth gate i now id =>
    have hmonthly : ∀ m ∈ s.marks, m.monthly = true → m.once_per_month = true := by
      intro m hmem
      obtain ⟨e, -, -, hm⟩ := (Bell.mem_marks h m).1 hmem
      exact once_of_monthly hm
    refine forall_congr' fun hallowed => ?_
    simp only [Bell.answer, notifyOncePerMonth_suppressed hallowed hmonthly, sentThisMonth_iff h]
    exact or_iff_or_left
  | markRead | markAllRead | archive | deleteAged => exact Iff.rfl

end runs

/-- In every run, every call is answered exactly if and only if each found what it asks for remembered. -/
theorem dedup_exact_iff {es : List (Call × Reply)} {s : Bell} (h : Trace Bell.step (fun _ _ => True) {} es s) :
    (∀ before e, before ++ [e] <+: es → Exact before e) ↔ Trace Bell.step (fun s e => s.Remembers e.1) {} es s := by
  constructor
  · intro hexact
    induction h with
    | start => exact .start
    | @next es e s s' hrun _ hs ih =>
      have hearlier := ih fun before e' hinit => hexact before e' (hinit.trans (List.prefix_append _ _))
      exact hearlier.next ((exact_iff hrun hs).1 (hexact es e List.prefix_rfl)) hs
  · intro h
    refine h.invariant (P := fun es _ => ∀ before e, before ++ [e] <+: es → Exact before e) ?_ ?_
    · intro before e hprefix
      simpa using List.prefix_nil.1 hprefix
    · intro es e s s' hrun ih hok hs before e' hprefix
      rcases List.prefix_concat_iff.1 hprefix with heq | hearlier
      · obtain ⟨rfl, hlast⟩ := List.append_inj' heq rfl
        obtain rfl := List.singleton_inj.1 hlast
        exact (exact_iff hrun hs).2 hok
      · exact ih before e' hearlier

/-- A milestone is announced, and repeated. -/
def announced : List (Call × Reply) :=
  [(.notify none { UserID := "u", typ := "milestone", DedupKey := "10" } 0 "n1", .inserted),
    (.notify none { UserID := "u", typ := "milestone", DedupKey := "10" } 5 "n2", .suppressed)]

theorem dedup_exact_iff_announced : ∃ s, Trace Bell.step (fun _ _ => True) {} announced s ∧
    ((∀ before e, before ++ [e] <+: announced → Exact before e) ↔ Trace Bell.step (fun s e => s.Remembers e.1) {} announced s) := by
  obtain ⟨s, hs⟩ := Option.isSome_iff_exists.1 (show (announced.foldlM Bell.step {}).isSome = true by decide)
  have hrun : Trace Bell.step (fun _ _ => True) {} announced s := Trace.play (fun _ _ => trivial) hs
  exact ⟨s, hrun, dedup_exact_iff hrun⟩

/-- 30 days: the worker keeps archived rows so long. -/
def aMonth : Time := 30 * microsPerDay

/-- Another type and key run together into the same text. -/
def collided : List (Call × Reply) :=
  [(.notify none { UserID := "u", typ := "task", DedupKey := "done:7" } 0 "n1", .inserted),
    (.notify none { UserID := "u", typ := "task:done", DedupKey := "7" } 5 "n2", .suppressed)]

/-- The notification is archived, swept, and sent again. -/
def swept : List (Call × Reply) :=
  [(.notify none { UserID := "u", typ := "milestone", DedupKey := "10" } 0 "n1", .inserted),
    (.archive "u" "n1" 5, .done),
    (.deleteAged aMonth (3 * aMonth) 1000 (aMonth + 10) ["n1"], .done),
    (.notify none { UserID := "u", typ := "milestone", DedupKey := "10" } (aMonth + 20) "n2", .inserted)]

/-- A notification is suppressed that was never sent, and one is sent twice. -/
theorem dedup_inexact :
    (∃ s, Trace Bell.step (fun _ _ => True) {} collided s) ∧
    ¬ (∀ before e, before ++ [e] <+: collided → Exact before e) ∧
    (∃ s, Trace Bell.step (fun _ _ => True) {} swept s) ∧ ¬ (∀ before e, before ++ [e] <+: swept → Exact before e) := by
  refine ⟨?_, ?_, ?_, ?_⟩
  · obtain ⟨s, hs⟩ := Option.isSome_iff_exists.1 (show (collided.foldlM Bell.step {}).isSome = true by decide)
    exact ⟨s, Trace.play (fun _ _ => trivial) hs⟩
  · intro hexact
    obtain ⟨gate, j, now, id, hmem, -, htyp, -⟩ := (hexact [collided[0]] collided[1] List.prefix_rfl rfl (by decide)).1 rfl
    obtain hcall := congrArg Prod.fst (List.mem_singleton.1 hmem)
    injection hcall with _ hinput
    subst hinput
    exact absurd htyp (by decide)
  · obtain ⟨s, hs⟩ := Option.isSome_iff_exists.1 (show (swept.foldlM Bell.step {}).isSome = true by decide)
    exact ⟨s, Trace.play (fun _ _ => trivial) hs⟩
  · intro hexact
    have hsent : SentBefore (swept.take 3) { UserID := "u", typ := "milestone", DedupKey := "10" } :=
      ⟨none, _, 0, "n1", List.mem_cons_self, rfl, rfl, rfl⟩
    exact absurd ((hexact (swept.take 3) swept[3] List.prefix_rfl rfl (by decide)).2 hsent) (by decide)

end Ploykit.Notify

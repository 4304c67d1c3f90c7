import Mathlib.Data.Finset.Basic

/-!
# Clients of the hub

The frames of `platform/wswire`, and `client.deliver` of `platform/wsx/client.go` as far as it
decides which frames go into the queue of a client.
-/

namespace Ploykit.Wsx

/-! ## Frames -/

structure Frame where
  type : String
  payload : String
  eventID : String
  deriving DecidableEq, Repr

namespace Wire

def ctrlAuth : String := "auth"
def ctrlSubscribe : String := "subscribe"
def ctrlUnsub : String := "unsubscribe"
def confirmPrefix : String := "confirmed:"
def rejectedPrefix : String := "rejected:"
def connectedFrameType : String := "connected"

def scopeWorkspace : String := "workspace"
def scopeUser : String := "user"

def scopeKey (kind id : String) : String := kind ++ ":" ++ id

end Wire

/-- The fields of a control frame, or of the object nested in it. -/
structure ControlFields where
  token : String := ""
  scope : String := ""
  id : String := ""
  deriving DecidableEq, Repr

/-- What `json.Unmarshal` makes of a control frame. The payload is there where it is an object. -/
structure RawControl where
  type : String
  fields : ControlFields := {}
  payload : Option ControlFields := none
  deriving DecidableEq, Repr

structure ControlFrame where
  type : String
  token : String
  scope : String
  id : String
  deriving DecidableEq, Repr

/-- `DecodeControl`: the fields of the payload stand in for those that are empty. -/
def decodeControl (raw : RawControl) : ControlFrame :=
  let nested := raw.payload.getD {}
  let pick (own other : String) := if own = "" then other else own
  { type := raw.type
    token := pick raw.fields.token nested.token
    scope := pick raw.fields.scope nested.scope
    id := pick raw.fields.id nested.id }

/-! ## Event ids -/

def dedupDepth : Nat := 128

/-- The event ids that have come last, the oldest first, and the set of them. -/
structure Dedup where
  seen : Finset String
  order : List String
  inStep : ∀ id, id ∈ seen ↔ id ∈ order
  nodup : order.Nodup
  bounded : order.length ≤ dedupDepth

namespace Dedup

def empty : Dedup := ⟨∅, [], by simp, List.nodup_nil, Nat.zero_le _⟩

variable (d : Dedup) (id : String)

/-- The ids once a new one has come. The oldest is dropped where there are too many. -/
def push (hnew : id ∉ d.order) : Dedup :=
  if hfull : d.order.length < dedupDepth then
    { seen := insert id d.seen
      order := d.order ++ [id]
      inStep := fun x => by simp [d.inStep x, or_comm]
      nodup := List.nodup_append.2 ⟨d.nodup, List.nodup_singleton id, fun a ha b hb => by
        rw [List.mem_singleton.1 hb]
        exact fun heq => hnew (heq ▸ ha)⟩
      bounded := by
        rw [List.length_append]
        exact hfull }
  else
    match horder : d.order with
    -- there is an oldest, since the list is full
    | [] => d
    | oldest :: rest =>
      { seen := (insert id d.seen).erase oldest
        order := rest ++ [id]
        inStep := fun x => by
          have hnodup := d.nodup
          have hold := d.inStep x
          rw [horder] at hnodup hold hnew
          rw [List.nodup_cons] at hnodup
          rw [List.mem_cons, not_or] at hnew
          rw [Finset.mem_erase, Finset.mem_insert, hold, List.mem_cons, List.mem_append, List.mem_singleton]
          constructor
          · rintro ⟨hne, rfl | rfl | hx⟩
            · exact .inr rfl
            · exact absurd rfl hne
            · exact .inl hx
          · rintro (hx | rfl)
            · exact ⟨fun heq => hnodup.1 (heq ▸ hx), .inr (.inr hx)⟩
            · exact ⟨hnew.1, .inl rfl⟩
        nodup := by
          have hnodup := d.nodup
          rw [horder] at hnodup hnew
          refine List.nodup_append.2 ⟨(List.nodup_cons.1 hnodup).2, List.nodup_singleton id, fun a ha b hb => ?_⟩
          rw [List.mem_singleton.1 hb]
          exact fun heq => hnew (List.mem_cons_of_mem _ (heq ▸ ha))
        bounded := by
          have hbound := d.bounded
          rw [horder] at hbound
          simpa using hbound }

/-- The first part of `deliver`: whether the frame goes into the queue, and the ids that are then remembered. -/
def deliver : Bool × Dedup :=
  if id = "" then (true, d)
  else if hseen : id ∈ d.seen then (false, d)
  else (true, d.push id fun hmem => hseen ((d.inStep id).2 hmem))

/-! ## The window -/

/-- What is remembered, and the ids that were let through, the last first, after one more frame. -/
def offer (x : Dedup × List String) (id : String) : Dedup × List String :=
  ((x.1.deliver id).2, if (x.1.deliver id).1 then id :: x.2 else x.2)

def offered (ids : List String) : Dedup × List String := ids.foldl offer (empty, [])

/-- The event ids among those let through. -/
def sent (ids : List String) : List String := (offered ids).2.filter (· ≠ "")

variable {d id}

theorem order_push (hnew : id ∉ d.order) : (d.push id hnew).order.reverse = (id :: d.order.reverse).take dedupDepth := by
  unfold push
  split
  · rename_i hfull
    rw [List.reverse_append, List.take_of_length_le (by simpa [Nat.succ_le_iff] using hfull)]
    rfl
  · rename_i hfull
    split
    · rename_i horder
      exact absurd (horder ▸ Nat.zero_lt_succ 127) hfull
    · rename_i oldest rest horder
      have hlength : rest.length = 127 := by
        have hbound := d.bounded
        rw [horder, List.length_cons] at hbound hfull
        unfold dedupDepth at hbound hfull
        omega
      change (rest ++ [id]).reverse = _
      rw [horder, List.reverse_concat, List.reverse_cons]
      exact congrArg (id :: ·) (List.take_left' (by simpa using hlength)).symm

theorem sent_concat (ids : List String) : sent (ids ++ [id]) =
    if id ≠ "" ∧ ((offered ids).1.deliver id).1 then id :: sent ids else sent ids := by
  rw [sent, offered, List.foldl_concat, ← offered, offer]
  by_cases hid : id = "" <;> split <;> simp_all [sent]

/-- What is remembered is the end of what was sent. -/
theorem order_offered (ids : List String) : (offered ids).1.order.reverse = (sent ids).take dedupDepth := by
  induction ids using List.reverseRecOn with
  | nil => rfl
  | append_singleton ids id ih =>
    rw [sent_concat, offered, List.foldl_concat, ← offered, offer]
    unfold deliver
    split
    · simp_all
    · split
      · simp_all
      · rename_i hid hnew
        simp [hid, order_push, ih, dedupDepth, List.take_take]

/-- A frame is held back exactly if its id is one of the 128 sent last, so that of 129 in succession no two are the same. -/
theorem sent_window (ids : List String) (id : String) :
    (((offered ids).1.deliver id).1 ↔ id = "" ∨ id ∉ (sent ids).take dedupDepth) ∧
    ∀ n, (((sent ids).drop n).take (dedupDepth + 1)).Nodup := by
  have hdeliver : ∀ ids id, ((offered ids).1.deliver id).1 ↔ id = "" ∨ id ∉ (sent ids).take dedupDepth := by
    intro ids id
    rw [← order_offered, List.mem_reverse, ← Dedup.inStep]
    unfold deliver
    split
    · simp_all
    · split <;> simp_all
  refine ⟨hdeliver ids id, ?_⟩
  induction ids using List.reverseRecOn with
  | nil => simp [sent, offered]
  | append_singleton ids new ih =>
    rw [sent_concat]
    split
    · rename_i hsent
      rintro (- | n)
      · have hnew := ((hdeliver ids new).1 hsent.2).resolve_left hsent.1
        exact List.nodup_cons.2 ⟨hnew, (ih 0).sublist (List.take_sublist_take_left (Nat.le_succ _))⟩
      · exact ih n
    · exact ih

end Dedup

end Ploykit.Wsx

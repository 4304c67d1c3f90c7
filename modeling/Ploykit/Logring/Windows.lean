import Ploykit.Lib.Lru
import Ploykit.Logring.Ring

/-!
# The windows of the log ring

What the ring should hold is said of the records that were captured, the last one first. The
invariant `Recorded` connects it with the slots, the heads and the list of requests.
-/

namespace Ploykit.Logring

open Lib

/-! ## What should be held -/

/-- The requests of the records. -/
def uses (past : List Entry) : List String := (past.map Entry.requestID).filter (· ≠ "")

/-- The requests that were used most recently, the last one first. -/
def live (max : Nat) (past : List Entry) : List String := (recents (uses past)).take max

/-- The records of a request since it last came to be among them, in the order of their capture. -/
def sinceCreated (max : Nat) (rid : String) : List Entry → List Entry
  | [] => []
  | e :: past =>
    if e.requestID = rid then (if rid ∈ live max past then sinceCreated max rid past else []) ++ [e]
    else sinceCreated max rid past

/-- The ring after the records were captured. -/
def captured (opt : Options) (log : List Entry) : Ring := log.foldl Ring.store (Ring.new opt)

variable {e : Entry} {past log : List Entry} {r : Ring} {rid : String} {max : Nat}

theorem uses_cons_named (h : e.requestID ≠ "") : uses (e :: past) = e.requestID :: uses past := by
  simp [uses, h]

theorem uses_cons_anonymous (h : e.requestID = "") : uses (e :: past) = uses past := by
  simp [uses, h]

theorem nodup_live (max : Nat) (past : List Entry) : (live max past).Nodup :=
  (nodup_recents _).sublist (List.take_sublist _ _)

theorem length_live_le (max : Nat) (past : List Entry) : (live max past).length ≤ max := List.length_take_le _ _

theorem sinceCreated_of_ne (h : e.requestID ≠ rid) : sinceCreated max rid (e :: past) = sinceCreated max rid past :=
  if_neg h

/-! ## The tail -/

structure TailRecorded (log : List Entry) (r : Ring) : Prop where
  window : Window r.capacity log r.tail r.tailHead
  total : r.captured = UInt64.ofNat log.length
  counted : r.captured = UInt64.ofNat r.tail.length + r.droppedGlobal

namespace Ring

variable (r : Ring) (e : Entry) (rid : String) (b : Bucket)

@[simp] theorem addTail_capacity : (r.addTail e).capacity = r.capacity := by unfold addTail; split <;> rfl
@[simp] theorem addTail_perRequest : (r.addTail e).perRequest = r.perRequest := by unfold addTail; split <;> rfl
@[simp] theorem addTail_maxRequests : (r.addTail e).maxRequests = r.maxRequests := by unfold addTail; split <;> rfl
@[simp] theorem addTail_buckets : (r.addTail e).buckets = r.buckets := by unfold addTail; split <;> rfl
@[simp] theorem addTail_lru : (r.addTail e).lru = r.lru := by unfold addTail; split <;> rfl

/-- What the work on the buckets leaves alone. -/
structure SameTail (r r' : Ring) : Prop where
  tail : r'.tail = r.tail
  tailHead : r'.tailHead = r.tailHead
  capacity : r'.capacity = r.capacity
  perRequest : r'.perRequest = r.perRequest
  maxRequests : r'.maxRequests = r.maxRequests
  captured : r'.captured = r.captured
  droppedGlobal : r'.droppedGlobal = r.droppedGlobal

theorem SameTail.trans {r r' r'' : Ring} (h : r.SameTail r') (h' : r'.SameTail r'') : r.SameTail r'' :=
  ⟨h'.tail.trans h.tail, h'.tailHead.trans h.tailHead, h'.capacity.trans h.capacity, h'.perRequest.trans h.perRequest,
    h'.maxRequests.trans h.maxRequests, h'.captured.trans h.captured, h'.droppedGlobal.trans h.droppedGlobal⟩

theorem sameTail_makeRoom : SameTail r r.makeRoom := by
  unfold makeRoom
  split
  · cases r.lru with
    | nil => exact ⟨rfl, rfl, rfl, rfl, rfl, rfl, rfl⟩
    | cons oldest rest => exact ⟨rfl, rfl, rfl, rfl, rfl, rfl, rfl⟩
  · exact ⟨rfl, rfl, rfl, rfl, rfl, rfl, rfl⟩

theorem sameTail_useBucket : SameTail r (r.useBucket rid).2 := by
  unfold useBucket
  cases r.buckets.lookup rid with
  | none =>
    have h := r.sameTail_makeRoom
    exact ⟨h.tail, h.tailHead, h.capacity, h.perRequest, h.maxRequests, h.captured, h.droppedGlobal⟩
  | some b => exact ⟨rfl, rfl, rfl, rfl, rfl, rfl, rfl⟩

theorem sameTail_addBucket : SameTail r (r.addBucket rid b e) := by
  unfold addBucket
  split <;> exact ⟨rfl, rfl, rfl, rfl, rfl, rfl, rfl⟩

end Ring

namespace TailRecorded

theorem of_sameTail {r' : Ring} (h : TailRecorded log r) (hsame : r.SameTail r') : TailRecorded log r' where
  window := by
    rw [hsame.capacity, hsame.tail, hsame.tailHead]
    exact h.window
  total := hsame.captured.trans h.total
  counted := by
    rw [hsame.captured, hsame.tail, hsame.droppedGlobal]
    exact h.counted

theorem addTail (h : TailRecorded log r) : TailRecorded (log ++ [e]) (Ring.addTail { r with captured := r.captured + 1 } e) := by
  have htotal : r.captured + 1 = UInt64.ofNat (log ++ [e]).length := by
    rw [h.total, List.length_append, List.length_singleton, UInt64.ofNat_add]
    rfl
  unfold Ring.addTail
  by_cases hroom : r.tail.length < r.capacity
  · rw [if_pos hroom]
    refine ⟨?_, htotal, ?_⟩
    · rw [h.window.unwrapped hroom]
      exact h.window.fill hroom
    · show r.captured + 1 = UInt64.ofNat (r.tail ++ [e]).length + r.droppedGlobal
      rw [h.counted, List.length_append, List.length_singleton, UInt64.ofNat_add]
      rw [UInt64.add_assoc, UInt64.add_comm _ 1, ← UInt64.add_assoc]
      rfl
  · rw [if_neg hroom]
    refine ⟨h.window.overwrite hroom, htotal, ?_⟩
    show r.captured + 1 = UInt64.ofNat (r.tail.set r.tailHead e).length + (r.droppedGlobal + 1)
    rw [h.counted, List.length_set, UInt64.add_assoc]

end TailRecorded

/-! ## The requests -/

/-- A bucket holds the last of these records. -/
structure BucketRecorded (cap : Nat) (log : List Entry) (b : Bucket) : Prop where
  window : Window cap log b.entries b.head
  full : b.full = true ↔ b.entries.length = cap

structure RequestsRecorded (past : List Entry) (r : Ring) : Prop where
  lru : r.lru = (live r.maxRequests past).reverse
  keys : r.buckets.keys.Perm r.lru
  buckets : ∀ rid b, r.buckets.lookup rid = some b → BucketRecorded r.perRequest (sinceCreated r.maxRequests rid past) b

namespace BucketRecorded

variable {cap : Nat} {b : Bucket}

theorem empty (hcap : 0 < cap) : BucketRecorded cap [] {} :=
  ⟨Window.init hcap, ⟨fun h => (Bool.false_ne_true h).elim, fun h => (hcap.ne h).elim⟩⟩

theorem ordered_eq (h : BucketRecorded cap log b) : ordered b.entries b.head b.full = log.rtake cap := by
  unfold ordered
  by_cases hfull : b.full = true
  · rw [if_neg (not_not.2 hfull)]
    exact h.window.unroll_eq
  · rw [if_pos hfull]
    have hlt : b.entries.length < cap := by
      have hlength := h.window.length
      have hne : b.entries.length ≠ cap := fun heq => hfull (h.full.2 heq)
      omega
    rw [← h.window.contents, h.window.unwrapped hlt, List.rotate_zero]

/-- The bucket with one more record. -/
theorem fill (h : BucketRecorded cap log b) (hroom : b.entries.length < cap) :
    BucketRecorded cap (log ++ [e]) (if (b.entries ++ [e]).length = cap then { entries := b.entries ++ [e], full := true }
      else { b with entries := b.entries ++ [e] }) := by
  by_cases hlast : (b.entries ++ [e]).length = cap
  · rw [if_pos hlast]
    exact ⟨h.window.fill hroom, iff_of_true rfl hlast⟩
  · rw [if_neg hlast]
    refine ⟨?_, iff_of_false (fun hfull => ?_) hlast⟩
    · show Window cap (log ++ [e]) (b.entries ++ [e]) b.head
      rw [h.window.unwrapped hroom]
      exact h.window.fill hroom
    · exact hroom.ne (h.full.1 hfull)

theorem overwrite (h : BucketRecorded cap log b) (hfull : ¬ b.entries.length < cap) :
    BucketRecorded cap (log ++ [e]) { b with entries := b.entries.set b.head e, head := (b.head + 1) % cap } where
  window := h.window.overwrite hfull
  full := by
    show b.full = true ↔ (b.entries.set b.head e).length = cap
    rw [List.length_set]
    exact h.full

end BucketRecorded

namespace RequestsRecorded

theorem size (h : RequestsRecorded past r) : r.buckets.entries.length = (live r.maxRequests past).length := by
  have hlength := h.keys.length_eq
  rw [h.lru, List.length_reverse] at hlength
  rw [← hlength]
  exact (List.length_map _).symm

theorem mem_live (h : RequestsRecorded past r) : rid ∈ live r.maxRequests past ↔ (r.buckets.lookup rid).isSome := by
  rw [AList.lookup_isSome, AList.mem_keys, h.keys.mem_iff, h.lru, List.mem_reverse]

theorem ne_empty_of_live (h : rid ∈ live max past) : rid ≠ "" :=
  of_decide_eq_true (List.mem_filter.1 (mem_of_mem_recents (List.mem_of_mem_take h))).2

/-- A record without a request changes nothing. -/
theorem anonymous (h : RequestsRecorded past r) (hid : e.requestID = "") : RequestsRecorded (e :: past) r := by
  have hlive : live r.maxRequests (e :: past) = live r.maxRequests past := by rw [live, uses_cons_anonymous hid, live]
  refine ⟨h.lru.trans (congrArg List.reverse hlive.symm), h.keys, fun rid b hb => ?_⟩
  have hne : e.requestID ≠ rid := fun heq => ne_empty_of_live (h.mem_live.2 (Option.isSome_of_mem hb)) (heq ▸ hid)
  rw [sinceCreated_of_ne hne]
  exact h.buckets rid b hb

/-- There is room for one more request. -/
structure Roomy (past : List Entry) (r r' : Ring) : Prop where
  lru : r'.lru = ((recents (uses past)).take (r.maxRequests - 1)).reverse
  keys : r'.buckets.keys.Perm r'.lru
  buckets : ∀ rid b, r'.buckets.lookup rid = some b → r.buckets.lookup rid = some b

theorem makeRoom (h : RequestsRecorded past r) (hmax : 0 < r.maxRequests) : Roomy past r r.makeRoom := by
  unfold Ring.makeRoom
  obtain ⟨m, hm⟩ : ∃ m, r.maxRequests = m + 1 := ⟨_, (Nat.succ_pred_eq_of_pos hmax).symm⟩
  by_cases hfull : r.buckets.entries.length ≥ r.maxRequests
  · rw [if_pos hfull]
    have hlast : ∃ oldest, r.lru = oldest :: ((recents (uses past)).take m).reverse := by
      have hsize := h.size
      rw [live, List.length_take] at hsize
      have hlt : m < (recents (uses past)).length := by omega
      refine ⟨(recents (uses past))[m], ?_⟩
      rw [h.lru, live, hm, List.take_succ_eq_append_getElem hlt, List.reverse_append]
      rfl
    obtain ⟨oldest, hlru⟩ := hlast
    have hkeys := h.keys
    rw [hlru] at hkeys
    rw [hlru]
    refine ⟨by rw [hm]; rfl, ?_, fun rid b hb => ?_⟩
    · show (r.buckets.erase oldest).keys.Perm _
      rw [AList.keys_erase]
      simpa using hkeys.erase oldest
    · have hne : rid ≠ oldest := by
        rintro rfl
        rw [show AList.lookup rid (r.buckets.erase rid) = none from AList.lookup_erase rid _] at hb
        cases hb
      rwa [show AList.lookup rid (r.buckets.erase oldest) = _ from AList.lookup_erase_ne hne] at hb
  · rw [if_neg hfull]
    refine ⟨?_, h.keys, fun rid b hb => hb⟩
    have hsize := h.size
    rw [live, List.length_take] at hsize
    rw [h.lru, live, List.take_of_length_le (by omega), List.take_of_length_le (by omega)]

/-- The bucket of the next record is there, its request the last that was used. -/
structure Used (e : Entry) (past : List Entry) (r : Ring) (b : Bucket) (r' : Ring) : Prop where
  lru : r'.lru = (live r.maxRequests (e :: past)).reverse
  keys : r'.buckets.keys.Perm r'.lru
  bucket : BucketRecorded r.perRequest
    (if e.requestID ∈ live r.maxRequests past then sinceCreated r.maxRequests e.requestID past else []) b
  others : ∀ rid b, rid ≠ e.requestID → r'.buckets.lookup rid = some b → r.buckets.lookup rid = some b

theorem useBucket (h : RequestsRecorded past r) (hmax : 0 < r.maxRequests) (hper : 0 < r.perRequest) (hid : e.requestID ≠ "") :
    Used e past r (r.useBucket e.requestID).1 (r.useBucket e.requestID).2 := by
  unfold Ring.useBucket
  cases hb : r.buckets.lookup e.requestID with
  | none =>
    have hnew : e.requestID ∉ live r.maxRequests past := fun hmem => by
      rw [h.mem_live, hb] at hmem
      cases hmem
    have hroomy := h.makeRoom hmax
    have hlru : r.makeRoom.lru ++ [e.requestID] = (live r.maxRequests (e :: past)).reverse := by
      obtain ⟨m, hm⟩ : ∃ m, r.maxRequests = m + 1 := ⟨_, (Nat.succ_pred_eq_of_pos hmax).symm⟩
      rw [live, hm] at hnew
      rw [hroomy.lru, live, uses_cons_named hid, hm, take_recents_of_notMem hnew, List.reverse_cons]
      rfl
    have hfresh : e.requestID ∉ r.makeRoom.buckets.keys := fun hmem => by
      obtain ⟨b, hsome⟩ := Option.isSome_iff_exists.1 (AList.lookup_isSome.2 (AList.mem_keys.2 hmem))
      rw [hroomy.buckets _ b hsome] at hb
      cases hb
    refine ⟨hlru, ?_, ?_, fun rid b hne hrid => ?_⟩
    · show (r.makeRoom.buckets.insert e.requestID {}).keys.Perm (r.makeRoom.lru ++ [e.requestID])
      rw [AList.keys_insert, List.erase_of_not_mem hfresh]
      exact (hroomy.keys.cons _).trans (List.perm_append_singleton _ _).symm
    · rw [if_neg hnew]
      exact BucketRecorded.empty hper
    · rw [show AList.lookup rid (r.makeRoom.buckets.insert e.requestID {}) = _ from AList.lookup_insert_ne hne] at hrid
      exact hroomy.buckets rid b hrid
  | some b =>
    have hmem : e.requestID ∈ live r.maxRequests past := h.mem_live.2 (by rw [hb]; rfl)
    have hlru : r.lru.erase e.requestID ++ [e.requestID] = (live r.maxRequests (e :: past)).reverse := by
      have hnodup : r.lru.Nodup := by
        rw [h.lru]
        exact List.nodup_reverse.2 (nodup_live _ _)
      rw [live, uses_cons_named hid, take_recents_of_mem hmem, List.reverse_cons, ← List.filter_reverse]
      refine congrArg (· ++ [e.requestID]) ?_
      rw [hnodup.erase_eq_filter, h.lru]
      exact List.filter_congr fun k _ => by simp [bne, beq_eq_decide]
    refine ⟨hlru, ?_, ?_, fun rid b _ hrid => hrid⟩
    · have hin : e.requestID ∈ r.lru := by
        rw [h.lru]
        exact List.mem_reverse.2 hmem
      exact h.keys.trans ((List.perm_cons_erase hin).trans (List.perm_append_singleton _ _).symm)
    · rw [if_pos hmem]
      exact h.buckets e.requestID b hb

/-- A bucket of the request that was used last is replaced. -/
theorem Used.insert {b b' : Bucket} {r' r'' : Ring} (h : RequestsRecorded past r) (hused : Used e past r b r')
    (hsame : r.SameTail r'') (hlru : r''.lru = r'.lru) (hbuckets : r''.buckets = r'.buckets.insert e.requestID b')
    (hin : e.requestID ∈ r'.buckets) (hb' : BucketRecorded r''.perRequest (sinceCreated r.maxRequests e.requestID (e :: past)) b') :
    RequestsRecorded (e :: past) r'' where
  lru := by rw [hlru, hused.lru, hsame.maxRequests]
  keys := by
    rw [hbuckets, hlru, AList.keys_insert]
    exact (List.perm_cons_erase (AList.mem_keys.1 hin)).symm.trans hused.keys
  buckets rid c hc := by
    rw [hsame.maxRequests]
    by_cases heq : rid = e.requestID
    · subst heq
      rw [hbuckets, AList.lookup_insert] at hc
      obtain rfl := Option.some.inj hc
      exact hb'
    · rw [hbuckets, AList.lookup_insert_ne heq] at hc
      rw [sinceCreated_of_ne (Ne.symm heq), hsame.perRequest]
      exact h.buckets rid c (hused.others rid c heq hc)

theorem store (h : RequestsRecorded past r) (hmax : 0 < r.maxRequests) (hper : 0 < r.perRequest) (hid : e.requestID ≠ "") :
    RequestsRecorded (e :: past) ((r.useBucket e.requestID).2.addBucket e.requestID (r.useBucket e.requestID).1 e) := by
  have hused := h.useBucket hmax hper hid
  have hsame := r.sameTail_useBucket e.requestID
  have hin : e.requestID ∈ (r.useBucket e.requestID).2.buckets := by
    unfold Ring.useBucket
    cases hb : r.buckets.lookup e.requestID with
    | none => exact AList.mem_insert _ |>.2 (.inl rfl)
    | some b => exact AList.lookup_isSome.1 (by rw [hb]; rfl)
  generalize (r.useBucket e.requestID).1 = b at hused ⊢
  generalize (r.useBucket e.requestID).2 = r' at hused hsame hin ⊢
  have hsince : sinceCreated r.maxRequests e.requestID (e :: past) =
      (if e.requestID ∈ live r.maxRequests past then sinceCreated r.maxRequests e.requestID past else []) ++ [e] := if_pos rfl
  have hbucket := hused.bucket
  rw [← hsame.perRequest] at hbucket
  have hall := hsame.trans (r'.sameTail_addBucket e e.requestID b)
  unfold Ring.addBucket at hall ⊢
  by_cases hroom : b.entries.length < r'.perRequest
  · rw [if_pos hroom] at hall ⊢
    exact Used.insert h hused hall rfl rfl hin (hsince ▸ hbucket.fill hroom)
  · rw [if_neg hroom] at hall ⊢
    exact Used.insert h hused hall rfl rfl hin (hsince ▸ hbucket.overwrite hroom)

end RequestsRecorded

/-! ## Runs -/

structure Recorded (opt : Options) (log : List Entry) (r : Ring) : Prop where
  capacity : r.capacity = orDefault opt.capacity defaultCapacity
  perRequest : r.perRequest = orDefault opt.perRequestCapacity defaultPerRequest
  maxRequests : r.maxRequests = orDefault opt.maxRequests defaultMaxRequests
  tail : TailRecorded log r
  requests : RequestsRecorded log.reverse r

namespace Recorded

variable {opt : Options}

theorem new (opt : Options) : Recorded opt [] (Ring.new opt) where
  capacity := rfl
  perRequest := rfl
  maxRequests := rfl
  tail := ⟨Window.init (orDefault_pos _ (by decide)), rfl, rfl⟩
  requests := ⟨(congrArg List.reverse List.take_nil).symm, List.Perm.refl _, fun _ _ hb => (Option.some_ne_none _ hb.symm).elim⟩

theorem store (h : Recorded opt log r) : Recorded opt (log ++ [e]) (r.store e) := by
  have hmax : 0 < r.maxRequests := h.maxRequests ▸ orDefault_pos _ (by decide)
  have hper : 0 < r.perRequest := h.perRequest ▸ orDefault_pos _ (by decide)
  have htail := h.tail.addTail (e := e)
  have hrequests : RequestsRecorded log.reverse (Ring.addTail { r with captured := r.captured + 1 } e) :=
    ⟨by simpa using h.requests.lru, by simpa using h.requests.keys, by simpa using h.requests.buckets⟩
  have hreverse : (log ++ [e]).reverse = e :: log.reverse := by simp
  unfold Ring.store
  by_cases hid : e.requestID = ""
  · rw [if_pos hid]
    exact ⟨by simpa using h.capacity, by simpa using h.perRequest, by simpa using h.maxRequests, htail,
      hreverse ▸ hrequests.anonymous hid⟩
  · rw [if_neg hid]
    have hused := Ring.sameTail_useBucket (Ring.addTail { r with captured := r.captured + 1 } e) e.requestID
    have hadded := fun b =>
      Ring.sameTail_addBucket (Ring.useBucket (Ring.addTail { r with captured := r.captured + 1 } e) e.requestID).2 e e.requestID b
    refine ⟨?_, ?_, ?_, (htail.of_sameTail hused).of_sameTail (hadded _), ?_⟩
    · rw [(hadded _).capacity, hused.capacity]
      simpa using h.capacity
    · rw [(hadded _).perRequest, hused.perRequest]
      simpa using h.perRequest
    · rw [(hadded _).maxRequests, hused.maxRequests]
      simpa using h.maxRequests
    · rw [hreverse]
      exact hrequests.store (by simpa using hmax) (by simpa using hper) hid

theorem captured (opt : Options) (log : List Entry) : Recorded opt log (captured opt log) := by
  induction log using List.reverseRecOn with
  | nil => exact new opt
  | append_singleton log e ih =>
    rw [Logring.captured, List.foldl_append]
    exact ih.store

end Recorded

/-- Read before filtering, the tail is the last records and a bucket the last records of its request. -/
theorem windows_exact (opt : Options) (log : List Entry) :
    let capacity := orDefault opt.capacity defaultCapacity
    let perRequest := orDefault opt.perRequestCapacity defaultPerRequest
    let maxRequests := orDefault opt.maxRequests defaultMaxRequests
    let r := captured opt log
    (∀ q, r.tailEntries q = filterEntries (log.rtake capacity) q) ∧
      (∀ rid q, r.byRequestID rid q =
        if rid ∈ live maxRequests log.reverse then
          filterEntries ((sinceCreated maxRequests rid log.reverse).rtake perRequest) q
        else []) ∧
      r.buckets.keys.Perm (live maxRequests log.reverse) ∧ r.stats.requests ≤ maxRequests ∧
      r.stats.captured = UInt64.ofNat log.length ∧ r.stats.captured = UInt64.ofNat r.tail.length + r.stats.droppedGlobal := by
  intro capacity perRequest maxRequests r
  have h : Recorded opt log r := Recorded.captured opt log
  have hrequests := h.requests
  refine ⟨fun q => ?_, fun rid q => ?_, ?_, ?_, h.tail.total, h.tail.counted⟩
  · rw [Ring.tailEntries, h.tail.window.unroll_eq, h.capacity]
  · unfold Ring.byRequestID
    by_cases hid : rid = ""
    · rw [if_pos hid, if_neg fun hmem => RequestsRecorded.ne_empty_of_live hmem hid]
    · rw [if_neg hid]
      have hmem : rid ∈ live _ log.reverse ↔ _ := hrequests.mem_live
      rw [h.maxRequests] at hmem
      cases hb : r.buckets.lookup rid with
      | none =>
        rw [hb] at hmem
        rw [if_neg fun hin => Bool.false_ne_true (hmem.1 hin)]
      | some b =>
        rw [hb] at hmem
        rw [if_pos (hmem.2 rfl)]
        have hbucket := hrequests.buckets rid b hb
        show filterEntries (ordered b.entries b.head b.full) q = _
        rw [hbucket.ordered_eq, h.perRequest, h.maxRequests]
  · have hlru := hrequests.lru
    rw [h.maxRequests] at hlru
    exact (hrequests.keys.trans (hlru ▸ List.Perm.refl _)).trans (List.reverse_perm _)
  · exact (hrequests.size.trans_le (length_live_le _ _)).trans h.maxRequests.le

end Ploykit.Logring

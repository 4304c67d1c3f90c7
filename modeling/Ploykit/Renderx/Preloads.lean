import Mathlib.Data.List.Infix
import Ploykit.Platform.GoString

/-!
# Leading preloads

`hoistLeadingPreloads` and `isPreloadLinkTag` of `platform/renderx/template.go`, with the two regular
expressions written out.
-/

namespace Ploykit.Renderx.Preloads

open GoString

def lt : UInt8 := '<'.toUInt8
def gt : UInt8 := '>'.toUInt8
def quote : UInt8 := '"'.toUInt8

def lower (s : GoString) : GoString := s.map lowerByte

def isWord (c : UInt8) : Bool := isAlnum c || c = '_'.toUInt8

/-- `\b` between two bytes, or at an end of the text. -/
def boundary (prev next : Option UInt8) : Bool := prev.any isWord != next.any isWord

/-- The last byte that `(?i)^<link` matches, and the text after it. The Kelvin sign folds to the letter k. -/
def afterLink (tag : GoString) : Option (UInt8 × GoString) :=
  if lower (tag.take 5) = lit "<link" then some ('k'.toUInt8, tag.drop 5)
  else if lower (tag.take 4) = lit "<lin" ∧ (tag.drop 4).take 3 = [0xE2, 0x84, 0xAA] then some (0xAA, tag.drop 7)
  else none

/-- `linkTagRE` -/
def matchesLinkTag (tag : GoString) : Bool :=
  (afterLink tag).any fun (prev, rest) => boundary (some prev) rest.head? && rest.getLast? = some gt && gt ∉ rest.dropLast

/-- The value of a `rel="…"` at the start. -/
def relHere (s : GoString) : Option GoString :=
  let value := (s.drop 5).takeWhile (· ≠ quote)
  if lower (s.take 5) = lit "rel=\"" ∧ (s.drop 5).drop value.length ≠ [] then some value else none

/-- The first submatch of `relAttrRE`, after a byte. -/
def relValue (prev : Option UInt8) : GoString → Option GoString
  | [] => none
  | c :: s => ((relHere (c :: s)).filter fun _ => boundary prev (some c)).or (relValue (some c) s)

def relPreload (tag : GoString) : Bool := (relValue none tag).any fun value => (fields value).any fun tok => lower tok = lit "preload"

def isPreloadLinkTag (tag : GoString) : Bool := matchesLinkTag tag && relPreload tag

/-- The tag that the loop takes from the start of a text. -/
def leadingTag (s : GoString) : Option GoString :=
  if ¬ lit "<link" <+: s then none
  else
    match s.findIdx? (· = gt) with
    | none => none
    | some last =>
      if lt ∈ (s.take last).drop 1 then none
      else if isPreloadLinkTag (s.take (last + 1)) then some (s.take (last + 1)) else none

/-- A complete link tag, with no other tag in it, whose rel has the word. -/
structure PreloadTag (tag : GoString) : Prop where
  shape : ∃ inner, tag = lit "<link" ++ inner ++ [gt] ∧ lt ∉ inner ∧ gt ∉ inner ∧ (inner ++ [gt]).head?.any isWord = false
  preload : relPreload tag = true

section tags

variable {s tag tag' : GoString} {last : Nat}

theorem isPreloadLinkTag_iff {inner : GoString} (hgt : gt ∉ inner) :
    isPreloadLinkTag (lit "<link" ++ inner ++ [gt]) = true ↔
      (inner ++ [gt]).head?.any isWord = false ∧ relPreload (lit "<link" ++ inner ++ [gt]) = true := by
  have hafter : afterLink (lit "<link" ++ inner ++ [gt]) = some ('k'.toUInt8, inner ++ [gt]) := by
    rw [afterLink, List.append_assoc, if_pos (by rfl)]
    rfl
  have hword : isWord 'k'.toUInt8 = true := by decide
  rw [isPreloadLinkTag, Bool.and_eq_true, matchesLinkTag, hafter]
  refine and_congr_left fun _ => ?_
  simp [boundary, hword, hgt]

theorem findIdx_before {before after : GoString} (h : gt ∉ before) : (before ++ gt :: after).findIdx? (· = gt) = some before.length := by
  have hnone : before.findIdx? (· = gt) = none := List.findIdx?_eq_none_iff.2 fun c hc => by
    refine decide_eq_false ?_
    rintro rfl
    exact h hc
  rw [List.findIdx?_append, hnone, List.findIdx?_cons, if_pos (decide_eq_true rfl)]
  simp

theorem findIdx_split (h : s.findIdx? (· = gt) = some last) : ∃ after, s = s.take last ++ gt :: after ∧ gt ∉ s.take last := by
  obtain ⟨hlast, hgt, hbefore⟩ := List.findIdx?_eq_some_iff_getElem.1 h
  refine ⟨s.drop (last + 1), ?_, fun hmem => ?_⟩
  · have hget : s[last] = gt := of_decide_eq_true hgt
    rw [← hget, List.getElem_cons_drop, List.take_append_drop]
  · obtain ⟨j, hj, hjgt⟩ := List.mem_take_iff_getElem.1 hmem
    exact hbefore j (Nat.lt_of_lt_of_le hj (Nat.min_le_left _ _)) (decide_eq_true hjgt)

/-- The name of the tag stands before its end. -/
theorem link_before {before after : GoString} (h : lit "<link" <+: before ++ gt :: after) : ∃ inner, before = lit "<link" ++ inner := by
  have hgt : gt ∉ lit "<link" := by decide
  have hone : before ++ [gt] <+: before ++ gt :: after := ⟨after, by simp⟩
  rcases List.prefix_or_prefix_of_prefix h hone with hlink | hend
  · rcases List.prefix_concat_iff.1 hlink with heq | hbefore
    · exact absurd (heq ▸ List.mem_append_right _ (List.mem_singleton_self gt)) hgt
    · obtain ⟨inner, hinner⟩ := hbefore
      exact ⟨inner, hinner.symm⟩
  · exact absurd (hend.subset (List.mem_append_right _ (List.mem_singleton_self gt))) hgt

/-- The loop takes exactly the preload tags. -/
theorem leadingTag_iff : leadingTag s = some tag ↔ PreloadTag tag ∧ tag <+: s := by
  constructor
  · intro h
    unfold leadingTag at h
    split at h
    · cases h
    · rename_i hlink
      split at h
      · cases h
      · rename_i last hfind
        obtain ⟨after, hs, hgt⟩ := findIdx_split hfind
        have htake : s.take (last + 1) = s.take last ++ [gt] := by
          have hlen : (s.take last).length = last := List.length_take_of_le (Nat.le_of_lt (List.findIdx?_eq_some_iff_getElem.1 hfind).1)
          conv_lhs => rw [hs]
          rw [List.take_append, hlen]
          simp only [Nat.add_sub_cancel_left, List.take_take, List.take_succ_cons, List.take_zero]
          rw [Nat.min_eq_right (Nat.le_succ last)]
        obtain ⟨inner, hinner⟩ := link_before (hs ▸ Decidable.not_not.1 hlink)
        split at h
        · cases h
        · rename_i hlt
          split at h
          · rename_i hpreload
            cases h
            rw [htake, hinner] at hpreload ⊢
            rw [hinner] at hlt hgt
            have hgt' : gt ∉ inner := fun hmem => hgt (List.mem_append_right _ hmem)
            have hlt' : lt ∉ inner := fun hmem => hlt (List.mem_append_right _ hmem)
            obtain ⟨hword, hrel⟩ := (isPreloadLinkTag_iff hgt').1 hpreload
            exact ⟨⟨⟨inner, rfl, hlt', hgt', hword⟩, hrel⟩, ⟨after, by rw [hs, hinner]; simp⟩⟩
          · cases h
  · rintro ⟨⟨⟨inner, rfl, hlt, hgt, hword⟩, hrel⟩, after, rfl⟩
    have hlt' : lt ∉ (lit "<link" ++ inner).drop 1 := by
      intro hmem
      exact (List.mem_append.1 (show lt ∈ lit "link" ++ inner from hmem)).elim (by decide) hlt
    have hgt' : gt ∉ lit "<link" ++ inner := by
      intro hmem
      exact (List.mem_append.1 hmem).elim (by decide) hgt
    have hsplit : lit "<link" ++ inner ++ [gt] ++ after = lit "<link" ++ inner ++ gt :: after := by simp
    have htake : (lit "<link" ++ inner ++ gt :: after).take ((lit "<link" ++ inner).length + 1) = lit "<link" ++ inner ++ [gt] := by
      rw [← hsplit]
      exact List.take_left' (List.length_append.trans rfl)
    have hlink : lit "<link" <+: lit "<link" ++ inner ++ gt :: after := by
      rw [List.append_assoc]
      exact List.prefix_append _ _
    rw [hsplit, leadingTag, if_neg (Decidable.not_not.2 hlink), findIdx_before hgt']
    simp only
    rw [List.take_left' rfl, if_neg hlt', htake, if_pos ((isPreloadLinkTag_iff hgt).2 ⟨hword, hrel⟩)]

end tags

/-! ## The loop -/

theorem leadingTag_length {s tag : GoString} (h : leadingTag s = some tag) : 0 < tag.length ∧ tag.length ≤ s.length := by
  obtain ⟨⟨⟨inner, htag, -⟩, -⟩, hle⟩ := leadingTag_iff.1 h
  refine ⟨?_, hle.length_le⟩
  rw [htag, List.length_append]
  exact Nat.succ_pos _

/-- The loop from an offset, with the tags so far. -/
def hoistFrom (body : GoString) (pos : Nat) (tags : List GoString) : List GoString × Nat :=
  match _h : leadingTag (body.drop pos) with
  | none => (tags, pos)
  | some tag => hoistFrom body (pos + tag.length) (tags ++ [tag])
termination_by body.length - pos
decreasing_by
  have hlen := leadingTag_length _h
  rw [List.length_drop] at hlen
  omega

def hoistLeadingPreloads (body : GoString) : List GoString × GoString :=
  let (tags, pos) := hoistFrom body 0 []
  if pos = 0 then ([], body) else (tags, body.drop pos)

/-- What the loop adds is the run of tags at the offset. -/
theorem hoistFrom_run (body : GoString) (pos : Nat) (tags : List GoString) :
    ∃ run, hoistFrom body pos tags = (tags ++ run, pos + run.flatten.length) ∧ body.drop pos = run.flatten ++ body.drop (pos + run.flatten.length) ∧
      (∀ tag ∈ run, PreloadTag tag) ∧ leadingTag (body.drop (pos + run.flatten.length)) = none := by
  fun_induction hoistFrom body pos tags with
  | case1 pos tags hnone => exact ⟨[], by simp, by simp, by simp, by simpa using hnone⟩
  | case2 pos tags tag hsome ih =>
    obtain ⟨htag, after, hafter⟩ := leadingTag_iff.1 hsome
    obtain ⟨run, hrun, hbody, htags, hstop⟩ := ih
    have hlen : pos + (tag :: run).flatten.length = pos + tag.length + run.flatten.length := by simp [Nat.add_assoc]
    have hdrop : body.drop (pos + tag.length) = after := by rw [← List.drop_drop, ← hafter, List.drop_left]
    refine ⟨tag :: run, ?_, ?_, ?_, ?_⟩
    · rw [hrun, hlen, List.append_assoc, List.singleton_append]
    · rw [hlen, List.flatten_cons, List.append_assoc, ← hbody, hdrop, hafter]
    · exact List.forall_mem_cons.2 ⟨htag, htags⟩
    · rw [hlen]
      exact hstop

/-- Any run of tags at the start is the beginning of the run that the loop takes. -/
theorem run_maximal {run run' : List GoString} {rest rest' : GoString} (hrun : ∀ tag ∈ run, PreloadTag tag) (hstop : leadingTag rest = none)
    (hrun' : ∀ tag ∈ run', PreloadTag tag) (h : run'.flatten ++ rest' = run.flatten ++ rest) : run' <+: run := by
  induction run' generalizing run with
  | nil => exact List.nil_prefix
  | cons tag' run' ih =>
    have hfirst : leadingTag (run.flatten ++ rest) = some tag' := by
      refine leadingTag_iff.2 ⟨hrun' tag' List.mem_cons_self, ?_⟩
      rw [← h, List.flatten_cons, List.append_assoc]
      exact List.prefix_append _ _
    cases run with
    | nil =>
      rw [List.flatten_nil, List.nil_append, hstop] at hfirst
      cases hfirst
    | cons tag run =>
      have htag : leadingTag ((tag :: run).flatten ++ rest) = some tag := by
        refine leadingTag_iff.2 ⟨hrun tag List.mem_cons_self, ?_⟩
        rw [List.flatten_cons, List.append_assoc]
        exact List.prefix_append _ _
      obtain rfl : tag = tag' := Option.some.inj (htag.symm.trans hfirst)
      rw [List.flatten_cons, List.flatten_cons, List.append_assoc, List.append_assoc] at h
      have hrest := ih (fun t ht => hrun t (List.mem_cons_of_mem _ ht)) (fun t ht => hrun' t (List.mem_cons_of_mem _ ht)) (List.append_cancel_left h)
      exact (List.cons_prefix_cons).2 ⟨rfl, hrest⟩

/-- The body is split without loss into the longest run of preload tags at its start and a rest that starts with none. -/
theorem hoistLeadingPreloads_split (body : GoString) :
    (hoistLeadingPreloads body).1.flatten ++ (hoistLeadingPreloads body).2 = body ∧
      (∀ tag ∈ (hoistLeadingPreloads body).1, PreloadTag tag) ∧
      (∀ tag, PreloadTag tag → ¬ tag <+: (hoistLeadingPreloads body).2) ∧
      ∀ run rest, (∀ tag ∈ run, PreloadTag tag) → run.flatten ++ rest = body → run <+: (hoistLeadingPreloads body).1 := by
  obtain ⟨run, hrun, hbody, htags, hstop⟩ := hoistFrom_run body 0 []
  rw [Nat.zero_add, List.drop_zero] at hbody
  rw [Nat.zero_add, List.nil_append] at hrun
  rw [Nat.zero_add] at hstop
  have hresult : hoistLeadingPreloads body = (run, body.drop run.flatten.length) := by
    simp only [hoistLeadingPreloads, hrun]
    split
    · rename_i hzero
      cases run with
      | nil => rfl
      | cons tag run =>
        obtain ⟨⟨⟨inner, htag, -⟩, -⟩⟩ := List.forall_mem_cons.1 htags
        rw [htag] at hzero
        exact absurd hzero (Nat.succ_ne_zero _)
    · rfl
  rw [hresult]
  refine ⟨hbody.symm, htags, fun tag htag hstart => ?_, fun run' rest' hrun' hbody' => run_maximal htags hstop hrun' (hbody'.trans hbody)⟩
  rw [leadingTag_iff.2 ⟨htag, hstart⟩] at hstop
  cases hstop

end Ploykit.Renderx.Preloads

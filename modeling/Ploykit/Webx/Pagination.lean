import Mathlib.Algebra.Order.Ring.Int
import Ploykit.Platform.GoString
import Ploykit.Platform.Json

/-!
# Pagination

`ParsePagination` of `platform/webx/pagination.go`, `normalizePage` of the workspace service with the
offset of its repository, and `billingPage` of the administration. Integers have 64 bits.
-/

namespace Ploykit.Webx

open GoString

/-! ## Query strings -/

namespace Query

def plus : UInt8 := '+'.toUInt8
def ampersand : UInt8 := '&'.toUInt8
def semicolon : UInt8 := ';'.toUInt8
def equals : UInt8 := '='.toUInt8
def space : UInt8 := ' '.toUInt8

/-- `url.QueryUnescape` -/
def unescape (s : GoString) : Option GoString := pathUnescape (s.map fun c => if c = plus then space else c)

/-- A pair of the query, unless it has a semicolon or an escape that cannot be read. -/
def parsePair (s : GoString) : Option (GoString × GoString) :=
  if semicolon ∈ s ∨ s = [] then none
  else
    match unescape (s.takeWhile (· ≠ equals)), unescape ((s.dropWhile (· ≠ equals)).drop 1) with
    | some k, some v => some (k, v)
    | _, _ => none

/-- `URL.Query`, which drops what it cannot read. -/
def parse (raw : GoString) : List (GoString × GoString) := (raw.splitOn ampersand).filterMap parsePair

/-- `Values.Get` -/
def get (raw key : GoString) : GoString := (((parse raw).find? fun p => p.1 = key).map Prod.snd).getD []

end Query

/-! ## Pages -/

/-- `strconv.Atoi` -/
def Atoi (raw : GoString) : Option Int := (Strconv.parseSigned (raw.map Char.ofUInt8)).filter fun n => Strconv.IsInt64 n

/-- An integer of the machine. -/
def int64 (n : Int) : Int := n.bmod (2 ^ 64)

structure Pagination where
  PageNum : Int
  PageSize : Int

def Pagination.Offset (p : Pagination) : Int := int64 (int64 (p.PageNum - 1) * p.PageSize)

def parseIntOr (raw : GoString) (fallback : Int) : Int := if raw = [] then fallback else (Atoi raw).getD fallback

def maximum (maxSize : Int) : Int := if maxSize ≤ 0 then 100 else maxSize

def usualSize (defaultSize maxSize : Int) : Int := min (if defaultSize ≤ 0 then 20 else defaultSize) (maximum maxSize)

def ParsePagination (raw : GoString) (defaultSize maxSize : Int) : Pagination :=
  let pageNum := parseIntOr (Query.get raw (lit "pageNum")) 1
  let pageSize := parseIntOr (Query.get raw (lit "pageSize")) (usualSize defaultSize maxSize)
  let pageSize := if pageSize < 1 then usualSize defaultSize maxSize else pageSize
  { PageNum := if pageNum < 1 then 1 else pageNum
    PageSize := if maximum maxSize < pageSize then maximum maxSize else pageSize }

/-- `normalizePage` of the workspace service, whose repository takes the offset. -/
def normalizePage (page pageSize : Int) : Pagination :=
  let pageSize := if pageSize < 1 then 50 else pageSize
  { PageNum := if page < 1 then 1 else page, PageSize := if 200 < pageSize then 200 else pageSize }

/-- `billingPage` of the administration, with its limit and its offset as a page. -/
def billingPage (page pageSize : Int) : Pagination :=
  { PageNum := if page < 1 then 1 else page, PageSize := if pageSize < 1 ∨ 100 < pageSize then 20 else pageSize }

/-- What LIMIT and OFFSET select; a negative one is an error. -/
def select {α : Type} (rows : List α) (limit offset : Int) : Option (List α) :=
  if limit < 0 ∨ offset < 0 then none else some ((rows.drop offset.toNat).take limit.toNat)

structure Lawful (p : Pagination) (max : Int) : Prop where
  num : 1 ≤ p.PageNum
  size : 1 ≤ p.PageSize
  max : p.PageSize ≤ max
  offset : p.Offset = (p.PageNum - 1) * p.PageSize
  nonneg : 0 ≤ p.Offset
  /-- The pages up to this one are the start of any list, in order and each row once. -/
  pages : ∀ {α : Type} (rows : List α), ∃ parts : List (List α),
    (List.range p.PageNum.toNat).map (fun i : Nat => select rows p.PageSize (Pagination.Offset ⟨i + 1, p.PageSize⟩)) = parts.map some ∧
      parts.flatten = rows.take (p.PageNum.toNat * p.PageSize.toNat)

section pages

variable {n k max : Int}

theorem int64_eq (h : -2 ^ 63 ≤ n) (h' : n < 2 ^ 63) : int64 n = n := Int.bmod_eq_of_le (by omega) (by omega)

theorem int64_lt (n : Int) : int64 n < 2 ^ 63 := Int.bmod_lt (m := 2 ^ 64) (by decide)

theorem offset_eq {p : Pagination} (hnum : 1 ≤ p.PageNum) (hnum' : p.PageNum < 2 ^ 63) : p.Offset = int64 ((p.PageNum - 1) * p.PageSize) := by
  have hfirst : int64 (p.PageNum - 1) = p.PageNum - 1 := int64_eq (by omega) (by omega)
  rw [Pagination.Offset, hfirst]

theorem take_pages {α : Type} (rows : List α) (size num : Nat) :
    ((List.range num).map fun i => (rows.drop (i * size)).take size).flatten = rows.take (num * size) := by
  induction num with
  | zero => simp
  | succ num ih => rw [List.range_succ, List.map_append, List.flatten_append, ih, Nat.succ_mul, List.take_add]; simp

/-- A page is right exactly if the product fits. -/
theorem lawful_iff {p : Pagination} (hnum : 1 ≤ p.PageNum) (hnum' : p.PageNum < 2 ^ 63) (hsize : 1 ≤ p.PageSize) (hmax : p.PageSize ≤ max) :
    Lawful p max ↔ (p.PageNum - 1) * p.PageSize < 2 ^ 63 := by
  constructor
  · intro h
    rw [← h.offset, offset_eq hnum hnum']
    exact int64_lt _
  · intro h
    have hzero : 0 ≤ (p.PageNum - 1) * p.PageSize := Int.mul_nonneg (by omega) (by omega)
    have hoffset : p.Offset = (p.PageNum - 1) * p.PageSize := by rw [offset_eq hnum hnum', int64_eq (by omega) h]
    refine ⟨hnum, hsize, hmax, hoffset, hoffset ▸ hzero, fun rows => ?_⟩
    refine ⟨(List.range p.PageNum.toNat).map fun i => (rows.drop (i * p.PageSize.toNat)).take p.PageSize.toNat, ?_, take_pages rows _ _⟩
    rw [List.map_map]
    refine List.map_congr_left fun i hi => ?_
    have hi' : (i : Int) + 1 ≤ p.PageNum := by
      have := List.mem_range.1 hi
      omega
    have hle : (i : Int) * p.PageSize ≤ (p.PageNum - 1) * p.PageSize := Int.mul_le_mul_of_nonneg_right (by omega) (by omega)
    have hpos : 0 ≤ (i : Int) * p.PageSize := Int.mul_nonneg (by omega) (by omega)
    have hpage : Pagination.Offset ⟨i + 1, p.PageSize⟩ = i * p.PageSize := by
      have hwrap : int64 ((i : Int) + 1 - 1) = i := by rw [Int.add_sub_cancel, int64_eq (by omega) (by omega)]
      rw [Pagination.Offset, hwrap]
      exact int64_eq (n := i * p.PageSize) (by omega) (by omega)
    have hnat : ((i : Int) * p.PageSize).toNat = i * p.PageSize.toNat := by
      rw [Int.toNat_mul (by omega) (by omega), Int.toNat_natCast]
    rw [Function.comp_apply, select, hpage, if_neg (by omega), hnat]

/-- The page size that a text asks for, within the bounds. -/
def askedSize (raw : GoString) (defaultSize maxSize : Int) : Int :=
  min (((Atoi (Query.get raw (lit "pageSize"))).filter (1 ≤ ·)).getD (usualSize defaultSize maxSize)) (maximum maxSize)

theorem maximum_pos (maxSize : Int) : 1 ≤ maximum maxSize := by
  unfold maximum
  split <;> omega

theorem usualSize_pos (defaultSize maxSize : Int) : 1 ≤ usualSize defaultSize maxSize := by
  have hmax := maximum_pos maxSize
  unfold usualSize
  split <;> omega

theorem usualSize_le (defaultSize maxSize : Int) : usualSize defaultSize maxSize ≤ maximum maxSize := Int.min_le_right _ _

theorem Atoi_lt {raw : GoString} (h : Atoi raw = some n) : n < 2 ^ 63 := (of_decide_eq_true (Option.filter_eq_some_iff.1 h).2 : Strconv.IsInt64 n).2

theorem parseIntOr_eq (raw : GoString) (fallback : Int) : parseIntOr raw fallback = (Atoi raw).getD fallback := by
  unfold parseIntOr
  split
  · rename_i hempty
    rw [hempty]
    rfl
  · rfl

theorem parsed_size (raw : GoString) (defaultSize maxSize : Int) :
    (ParsePagination raw defaultSize maxSize).PageSize = askedSize raw defaultSize maxSize := by
  simp only [ParsePagination, askedSize, parseIntOr_eq]
  have husual := usualSize_pos defaultSize maxSize
  have hle := usualSize_le defaultSize maxSize
  cases Atoi (Query.get raw (lit "pageSize")) with
  | none =>
    simp only [Option.getD_none, Option.filter_none]
    rw [if_neg (by omega)]
    split <;> omega
  | some size =>
    by_cases hpos : 1 ≤ size
    · have hnot : ¬ size < 1 := by omega
      simp only [Option.getD_some, Option.filter_some, decide_eq_true hpos, if_true, if_neg hnot]
      split <;> omega
    · have hless : size < 1 := by omega
      simp only [Option.getD_some, Option.filter_some, decide_eq_false hpos, Bool.false_eq_true, if_false, if_pos hless, Option.getD_none]
      split <;> omega

theorem parsed_lawful (raw : GoString) (defaultSize maxSize : Int) :
    Lawful (ParsePagination raw defaultSize maxSize) (maximum maxSize) ↔
      ∀ n, Atoi (Query.get raw (lit "pageNum")) = some n → (n - 1) * askedSize raw defaultSize maxSize < 2 ^ 63 := by
  have hmax := maximum_pos maxSize
  have husual := usualSize_pos defaultSize maxSize
  have hasked : 1 ≤ askedSize raw defaultSize maxSize := by
    unfold askedSize
    cases hsize : (Atoi (Query.get raw (lit "pageSize"))).filter (1 ≤ ·) with
    | none => simp only [Option.getD_none]; omega
    | some size =>
      have hpos : 1 ≤ size := of_decide_eq_true (Option.filter_eq_some_iff.1 hsize).2
      simp only [Option.getD_some]
      omega
  have hle : askedSize raw defaultSize maxSize ≤ maximum maxSize := Int.min_le_right _ _
  have hsize := parsed_size raw defaultSize maxSize
  have hnum : (ParsePagination raw defaultSize maxSize).PageNum =
      if (Atoi (Query.get raw (lit "pageNum"))).getD 1 < 1 then 1 else (Atoi (Query.get raw (lit "pageNum"))).getD 1 := by
    simp only [ParsePagination, parseIntOr_eq]
  cases hread : Atoi (Query.get raw (lit "pageNum")) with
  | none =>
    rw [hread, Option.getD_none, if_neg (by omega)] at hnum
    rw [lawful_iff (by omega) (by omega) (by omega) (by omega), hnum]
    simp
  | some n =>
    have hlt := Atoi_lt hread
    rw [hread, Option.getD_some] at hnum
    by_cases hpos : n < 1
    · rw [if_pos hpos] at hnum
      rw [lawful_iff (by omega) (by omega) (by omega) (by omega), hnum]
      refine iff_of_true (by simp) ?_
      rintro _ ⟨⟩
      have hneg : (n - 1) * askedSize raw defaultSize maxSize ≤ 0 := Int.mul_nonpos_of_nonpos_of_nonneg (by omega) (by omega)
      omega
    · rw [if_neg hpos] at hnum
      rw [lawful_iff (by omega) (by omega) (by omega) (by omega), hnum, hsize]
      simp

/-- A page number and a size within bounds, as the services have them. -/
theorem clamped_lawful {page size : Int} (hpage : page < 2 ^ 63) (hsize : 1 ≤ size) (hmax : size ≤ max) :
    Lawful { PageNum := if page < 1 then 1 else page, PageSize := size } max ↔ (page - 1) * size < 2 ^ 63 := by
  split
  · rw [lawful_iff le_rfl (by show (1 : Int) < 2 ^ 63; decide) hsize hmax]
    have hneg : (page - 1) * size ≤ 0 := Int.mul_nonpos_of_nonpos_of_nonneg (by omega) (by omega)
    refine iff_of_true (by simp) (by omega)
  · rw [lawful_iff (by simp only; omega) hpage hsize hmax]

/-- In each of the three places the page is right exactly if the page number that is asked for, less one, times the size fits. -/
theorem pagination_exact (raw : GoString) (defaultSize maxSize page pageSize : Int) (hpage : page < 2 ^ 63) :
    (Lawful (ParsePagination raw defaultSize maxSize) (maximum maxSize) ↔
      ∀ n, Atoi (Query.get raw (lit "pageNum")) = some n → (n - 1) * askedSize raw defaultSize maxSize < 2 ^ 63) ∧
    (Lawful (normalizePage page pageSize) 200 ↔ (page - 1) * (if pageSize < 1 then 50 else min pageSize 200) < 2 ^ 63) ∧
    (Lawful (billingPage page pageSize) 100 ↔ (page - 1) * (if pageSize < 1 ∨ 100 < pageSize then 20 else pageSize) < 2 ^ 63) := by
  refine ⟨parsed_lawful raw defaultSize maxSize, ?_, ?_⟩
  · have hsize : (if 200 < (if pageSize < 1 then 50 else pageSize) then 200 else if pageSize < 1 then 50 else pageSize) =
        if pageSize < 1 then 50 else min pageSize 200 := by
      split <;> split <;> omega
    rw [normalizePage, hsize]
    exact clamped_lawful hpage (by split <;> omega) (by split <;> omega)
  · exact clamped_lawful hpage (by split <;> omega) (by split <;> omega)

/-- The third page of fifty. -/
theorem pagination_third : Lawful (ParsePagination (lit "pageNum=3&pageSize=50") 20 100) 100 ∧ Lawful (normalizePage 3 50) 200 ∧
    Lawful (billingPage 3 50) 100 := by
  obtain ⟨hparse, hworkspace, hbilling⟩ := pagination_exact (lit "pageNum=3&pageSize=50") 20 100 3 50 (by decide)
  refine ⟨hparse.2 fun n hn => ?_, hworkspace.2 (by decide), hbilling.2 (by decide)⟩
  rw [show Atoi (Query.get (lit "pageNum=3&pageSize=50") (lit "pageNum")) = some 3 by decide +kernel] at hn
  cases hn
  decide +kernel

/-- The last page number of the machine has a negative offset. -/
theorem offset_wrapped : ¬ ∀ (raw : GoString) (defaultSize maxSize : Int), 0 ≤ defaultSize → 0 ≤ maxSize →
    Lawful (ParsePagination raw defaultSize maxSize) (maximum maxSize) := by
  intro h
  exact absurd (h (lit "pageNum=9223372036854775807") 0 0 le_rfl le_rfl).nonneg (by decide +kernel)

end pages

end Ploykit.Webx

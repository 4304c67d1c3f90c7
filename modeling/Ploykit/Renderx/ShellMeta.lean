import Ploykit.Lib.Substring
import Ploykit.Platform.GoString

/-!
# Shell meta

`shellMetaWriter` of `renderx`. It scans what has arrived for the end of the head, up to a limit
after which it gives the body up. The model keeps what was written to the wrapped writer; writes to
it do not fail.
-/

namespace Ploykit.Renderx

open Lib GoString

namespace Shell

/-- The headers that decide what is touched, as they stand before the first write. -/
structure Header where
  contentEncoding : GoString := []
  contentType : GoString := []
  deriving DecidableEq, Repr

def shellMetaScanLimit : Nat := 256 * 1024

def headCloseTag : GoString := lit "</head>"

/-- `indexFold`, of a needle in lower case. -/
def indexFold (b needle : GoString) : Option Nat :=
  indexOf needle (b.map fun c => if 65 ≤ c ∧ c ≤ 90 then c + 32 else c)

def htmlShellCandidate (h : Header) : Bool := h.contentEncoding = [] ∧ lit "text/html" <:+: h.contentType

structure ShellMetaWriter where
  inject : GoString
  sent : GoString := []
  buf : GoString := []
  scanning : Bool := true
  started : Bool := false
  skip : Bool := false
  deriving DecidableEq, Repr

namespace ShellMetaWriter

variable (h : Header) (m : ShellMetaWriter)

/-- The buffer goes out with the meta before the offset, and the writer stops scanning. -/
def emit (split : Nat) : ShellMetaWriter :=
  { m with buf := [], scanning := false, sent := m.sent ++ m.buf.take split ++ m.inject ++ m.buf.drop split }

def emitPassthrough : ShellMetaWriter := { m with buf := [], scanning := false, sent := m.sent ++ m.buf }

/-- What `Write` does with the buffer that has grown. -/
def scan : ShellMetaWriter :=
  match indexFold m.buf headCloseTag with
  | some i => m.emit i
  | none => if m.buf.length > shellMetaScanLimit then m.emitPassthrough else m

def write (p : GoString) : ShellMetaWriter :=
  let m := if ¬ m.started then { m with started := true, skip := ¬ htmlShellCandidate h } else m
  if m.skip ∨ ¬ m.scanning then { m with sent := m.sent ++ p } else scan { m with buf := m.buf ++ p }

/-- Where the opener ends, in a buffer that has it. -/
def openerEnd (buf opener : GoString) : Option Nat := do
  let i ← indexFold buf opener
  let stop ← indexOf (lit ">") (buf.drop i)
  return i + stop + 1

def openers : List GoString := [lit "<head", lit "<html", lit "<!doctype"]

def finish : ShellMetaWriter :=
  if ¬ m.scanning ∨ m.skip ∨ m.buf = [] then m
  else match openers.findSome? (openerEnd m.buf) with
    | some at_ => m.emit at_
    | none => m.emitPassthrough

end ShellMetaWriter

/-- What reaches the client when the SPA handler writes these pieces. -/
def serveSPA (shellMeta : GoString) (h : Header) (chunks : List GoString) : GoString :=
  if shellMeta = [] then chunks.flatten
  else (chunks.foldl (ShellMetaWriter.write h) { inject := shellMeta }).finish.sent

/-! ## What should be sent -/

def insertAt (shellMeta body : GoString) (i : Nat) : GoString := body.take i ++ shellMeta ++ body.drop i

/-- The body without an end of the head. -/
def laddered (shellMeta body : GoString) : GoString :=
  (ShellMetaWriter.openers.findSome? (ShellMetaWriter.openerEnd body)).elim body (insertAt shellMeta body)

/-- After what has arrived a write ends beyond the limit and before the position. -/
def Overran (arrived : GoString) (chunks : List GoString) (stop : Nat) : Prop :=
  ∃ before, before <+: chunks ∧ shellMetaScanLimit < (arrived ++ before.flatten).length ∧ (arrived ++ before.flatten).length < stop

/-- What the pieces that follow make of the whole body. -/
structure Decides (shellMeta arrived : GoString) (chunks : List GoString) (sent : GoString) : Prop where
  overran : ∀ i, indexFold (arrived ++ chunks.flatten) headCloseTag = some i → Overran arrived chunks (i + headCloseTag.length) →
    sent = arrived ++ chunks.flatten
  found : ∀ i, indexFold (arrived ++ chunks.flatten) headCloseTag = some i → ¬ Overran arrived chunks (i + headCloseTag.length) →
    sent = insertAt shellMeta (arrived ++ chunks.flatten) i
  missing : indexFold (arrived ++ chunks.flatten) headCloseTag = none → sent =
    if (arrived ++ chunks.flatten).length > shellMetaScanLimit then arrived ++ chunks.flatten
    else laddered shellMeta (arrived ++ chunks.flatten)

/-! ## Runs of the writer -/

theorem indexFold_append {b b' needle : GoString} {i : Nat} (h : indexFold b needle = some i) : indexFold (b ++ b') needle = some i := by
  rw [indexFold, List.map_append]
  exact indexOf_append h

theorem indexFold_le {b needle : GoString} {i : Nat} (h : indexFold b needle = some i) : i + needle.length ≤ b.length := by
  simpa using (indexOf_spec h).2

/-- The needle is found in what has arrived exactly when it has arrived whole. -/
theorem indexFold_arrived {b b' needle : GoString} {i : Nat} (h : indexFold (b ++ b') needle = some i) :
    indexFold b needle = if i + needle.length ≤ b.length then some i else none := by
  rw [indexFold, List.map_append] at h
  rw [indexFold, indexOf_arrived h, List.length_map]

theorem insertAt_append {shellMeta b b' : GoString} {i : Nat} (hi : i ≤ b.length) :
    insertAt shellMeta (b ++ b') i = insertAt shellMeta b i ++ b' := by
  rw [insertAt, insertAt, List.take_append_of_le_length hi, List.drop_append_of_le_length hi, List.append_assoc _ _ b']

variable {h : Header} {m : ShellMetaWriter} {shellMeta : GoString}

namespace ShellMetaWriter

/-- What stopped scanning, or never scanned, writes through. -/
theorem run_through (hthrough : m.started = true ∧ (m.skip = true ∨ m.scanning = false)) (chunks : List GoString) :
    (chunks.foldl (write h) m).finish.sent = m.sent ++ chunks.flatten := by
  induction chunks generalizing m with
  | nil =>
    have hdone : ¬ m.scanning = true ∨ m.skip = true ∨ m.buf = [] := by
      rcases hthrough.2 with hskip | hscanning
      · exact .inr (.inl hskip)
      · exact .inl (by rw [hscanning]; exact Bool.false_ne_true)
    rw [List.foldl_nil, finish, if_pos hdone, List.flatten_nil, List.append_nil]
  | cons p chunks ih =>
    have hwrite : m.write h p = { m with sent := m.sent ++ p } := by
      have hdone : m.skip = true ∨ ¬ m.scanning = true := hthrough.2.imp id fun hscanning => by simp [hscanning]
      simp only [write, hthrough.1, not_true, if_false]
      exact if_pos hdone
    have hrest := ih (m := { m with sent := m.sent ++ p }) hthrough
    rw [List.foldl_cons, hwrite, List.flatten_cons, ← List.append_assoc]
    exact hrest

/-- What the writer is after it has scanned these bytes. -/
def scanned (shellMeta b : GoString) : ShellMetaWriter := { inject := shellMeta, buf := b, started := true }

variable {b p : GoString} {i : Nat}

theorem write_scanned : (scanned shellMeta b).write h p = (scanned shellMeta (b ++ p)).scan := rfl

theorem write_found (hfound : indexFold (b ++ p) headCloseTag = some i) :
    (scanned shellMeta b).write h p = (scanned shellMeta (b ++ p)).emit i := by
  rw [write_scanned, scan, scanned, hfound]

theorem write_overran (hnone : indexFold (b ++ p) headCloseTag = none) (hlong : (b ++ p).length > shellMetaScanLimit) :
    (scanned shellMeta b).write h p = (scanned shellMeta (b ++ p)).emitPassthrough := by
  rw [write_scanned, scan, scanned, hnone]
  exact if_pos hlong

theorem write_on (hnone : indexFold (b ++ p) headCloseTag = none) (hlong : ¬ (b ++ p).length > shellMetaScanLimit) :
    (scanned shellMeta b).write h p = scanned shellMeta (b ++ p) := by
  rw [write_scanned, scan, scanned, hnone]
  exact if_neg hlong

theorem finish_scanned : (scanned shellMeta b).finish.sent = laddered shellMeta b := by
  unfold finish
  by_cases hempty : b = []
  · have hdone : ¬ (scanned shellMeta b).scanning = true ∨ (scanned shellMeta b).skip = true ∨ (scanned shellMeta b).buf = [] :=
      .inr (.inr hempty)
    have hladder : laddered shellMeta [] = [] := by
      rw [laddered, show ShellMetaWriter.openers.findSome? (ShellMetaWriter.openerEnd []) = none by decide]
      rfl
    rw [if_pos hdone, hempty, hladder]
    rfl
  · have hmore : ¬ (¬ (scanned shellMeta b).scanning = true ∨ (scanned shellMeta b).skip = true ∨ (scanned shellMeta b).buf = []) := by
      simpa [scanned] using hempty
    rw [if_neg hmore, laddered]
    show (match openers.findSome? (openerEnd b) with
      | some at_ => (scanned shellMeta b).emit at_
      | none => (scanned shellMeta b).emitPassthrough).sent = _
    cases openers.findSome? (openerEnd b) with
    | none => rfl
    | some i => simp [emit, scanned, insertAt]

theorem overran_cons {chunks : List GoString} {stop : Nat} (hshort : ¬ b.length > shellMetaScanLimit) :
    Overran b (p :: chunks) stop ↔ Overran (b ++ p) chunks stop := by
  constructor
  · rintro ⟨before, hpre, hlong, hstop⟩
    cases before with
    | nil =>
      rw [List.flatten_nil, List.append_nil] at hlong
      exact absurd hlong hshort
    | cons q before =>
      obtain ⟨rfl, hrest⟩ := List.cons_prefix_cons.1 hpre
      rw [List.flatten_cons, ← List.append_assoc] at hlong hstop
      exact ⟨before, hrest, hlong, hstop⟩
  · rintro ⟨before, hpre, hlong, hstop⟩
    refine ⟨p :: before, List.cons_prefix_cons.2 ⟨rfl, hpre⟩, ?_, ?_⟩
    · rwa [List.flatten_cons, ← List.append_assoc]
    · rwa [List.flatten_cons, ← List.append_assoc]

theorem run_scanned (chunks : List GoString) (hnone : indexFold b headCloseTag = none) (hshort : ¬ b.length > shellMetaScanLimit) :
    Decides shellMeta b chunks (chunks.foldl (write h) (scanned shellMeta b)).finish.sent := by
  induction chunks generalizing b with
  | nil =>
    have hbody : b ++ ([] : List GoString).flatten = b := by rw [List.flatten_nil, List.append_nil]
    have habsent : ∀ i, indexFold (b ++ ([] : List GoString).flatten) headCloseTag ≠ some i := fun i hi => by
      rw [hbody, hnone] at hi
      cases hi
    refine ⟨fun i hi => absurd hi (habsent i), fun i hi => absurd hi (habsent i), fun _ => ?_⟩
    rw [hbody, if_neg hshort, List.foldl_nil, finish_scanned]
  | cons p chunks ih =>
    have hbody : b ++ (p :: chunks).flatten = (b ++ p) ++ chunks.flatten := by rw [List.flatten_cons, List.append_assoc]
    rw [List.foldl_cons]
    cases hp : indexFold (b ++ p) headCloseTag with
    | some j =>
      have hwhole : indexFold (b ++ (p :: chunks).flatten) headCloseTag = some j := hbody ▸ indexFold_append hp
      have hle := indexFold_le hp
      have hkept : ¬ Overran b (p :: chunks) (j + headCloseTag.length) := by
        rw [overran_cons hshort]
        rintro ⟨before, _, _, hstop⟩
        rw [List.length_append] at hstop
        omega
      have hsent : (chunks.foldl (write h) ((scanned shellMeta b).write h p)).finish.sent =
          insertAt shellMeta (b ++ (p :: chunks).flatten) j := by
        rw [write_found hp, run_through ⟨rfl, .inr rfl⟩, hbody, insertAt_append (by omega)]
        simp [emit, scanned, insertAt]
      refine ⟨fun i hi hover => ?_, fun i hi _ => ?_, fun hmissing => ?_⟩
      · rw [hwhole] at hi
        exact absurd (Option.some.inj hi ▸ hover) hkept
      · rw [hwhole] at hi
        rw [hsent, Option.some.inj hi]
      · rw [hwhole] at hmissing
        cases hmissing
    | none =>
      by_cases hlong : (b ++ p).length > shellMetaScanLimit
      · have hsent : (chunks.foldl (write h) ((scanned shellMeta b).write h p)).finish.sent = b ++ (p :: chunks).flatten := by
          rw [write_overran hp hlong, run_through ⟨rfl, .inr rfl⟩, hbody]
          rfl
        refine ⟨fun i _ _ => hsent, fun i hi hkept => ?_, fun _ => ?_⟩
        · refine absurd ((overran_cons hshort).2 ⟨[], List.nil_prefix, ?_, ?_⟩) hkept
          · rwa [List.flatten_nil, List.append_nil]
          · rw [List.flatten_nil, List.append_nil]
            have harrived := indexFold_arrived (hbody ▸ hi)
            rw [hp] at harrived
            by_contra hle
            rw [if_pos (Nat.not_lt.1 hle)] at harrived
            cases harrived
        · have hall : (b ++ (p :: chunks).flatten).length > shellMetaScanLimit := by
            rw [hbody, List.length_append]
            omega
          rw [if_pos hall, hsent]
      · have hrest := ih hp hlong
        rw [← write_on (h := h) hp hlong] at hrest
        refine ⟨fun i hi hover => ?_, fun i hi hkept => ?_, fun hmissing => ?_⟩
        · rw [hbody] at hi ⊢
          exact hrest.overran i hi ((overran_cons hshort).1 hover)
        · rw [hbody] at hi ⊢
          exact hrest.found i hi fun hover => hkept ((overran_cons hshort).2 hover)
        · rw [hbody] at hmissing ⊢
          exact hrest.missing hmissing

/-- The first write starts to scan. -/
theorem run_candidate (hcandidate : htmlShellCandidate h) (chunks : List GoString) :
    (chunks.foldl (write h) { inject := shellMeta }).finish.sent = (chunks.foldl (write h) (scanned shellMeta [])).finish.sent := by
  cases chunks with
  | nil => rw [List.foldl_nil, List.foldl_nil]; rfl
  | cons p chunks =>
    have hfirst : write h { inject := shellMeta } p = write h (scanned shellMeta []) p := by
      simp [write, scanned, hcandidate]
    rw [List.foldl_cons, List.foldl_cons, hfirst]

/-- Or it lets everything through. -/
theorem run_other (hother : ¬ htmlShellCandidate h) (chunks : List GoString) :
    (chunks.foldl (write h) { inject := shellMeta }).finish.sent = chunks.flatten := by
  cases chunks with
  | nil => rfl
  | cons p chunks =>
    have hfirst : write h { inject := shellMeta } p = { inject := shellMeta, sent := p, started := true, skip := true } := by
      simp [write, hother]
    rw [List.foldl_cons, hfirst, run_through ⟨rfl, .inl rfl⟩, List.flatten_cons]

end ShellMetaWriter

theorem serveSPA_decides (shellMeta : GoString) (hcandidate : htmlShellCandidate h) (chunks : List GoString) :
    Decides shellMeta [] chunks (serveSPA shellMeta h chunks) := by
  unfold serveSPA
  by_cases hmeta : shellMeta = []
  · have hinsert : ∀ body i, insertAt shellMeta body i = body := fun body i => by simp [insertAt, hmeta]
    have hladder : ∀ body, laddered shellMeta body = body := fun body => by
      rw [laddered]
      cases ShellMetaWriter.openers.findSome? (ShellMetaWriter.openerEnd body) with
      | none => rfl
      | some i => exact hinsert body i
    rw [if_pos hmeta]
    refine ⟨fun _ _ _ => rfl, fun i _ _ => (hinsert _ i).symm, fun _ => ?_⟩
    rw [hladder, ite_self]
    rfl
  · rw [if_neg hmeta, ShellMetaWriter.run_candidate hcandidate]
    exact ShellMetaWriter.run_scanned chunks (by decide) (by decide)

/-! ## The whole body -/

/-- Before the limit no write can end too early. -/
theorem not_overran {arrived : GoString} {chunks : List GoString} {stop : Nat} (h : stop ≤ shellMetaScanLimit + 1) :
    ¬ Overran arrived chunks stop := by
  rintro ⟨before, _, hlong, hstop⟩
  omega

example : serveSPA (lit "m") { contentType := lit "text/html" } [lit "<HEAD></HE", lit "AD>", lit "x"] = lit "<HEAD>m</HEAD>x" := by
  decide

/-! ## A head that ends late -/

def padding : GoString := List.replicate (shellMetaScanLimit + 1) 32

theorem indexFold_padding : indexFold (padding ++ headCloseTag) headCloseTag = some (shellMetaScanLimit + 1) := by
  have hclose : indexOf headCloseTag (headCloseTag.map fun c => if 65 ≤ c ∧ c ≤ 90 then c + 32 else c) = some 0 := by decide
  have hpad : ∀ n l i, indexOf headCloseTag l = some i → indexOf headCloseTag (List.replicate n (32 : UInt8) ++ l) = some (n + i) := by
    intro n l i hl
    induction n with
    | zero => simpa using hl
    | succ n ih =>
      have hspace : ¬ headCloseTag <+: 32 :: (List.replicate n (32 : UInt8) ++ l) := fun hpre => by
        have hfirst := (List.cons_prefix_cons.1 hpre).1
        exact absurd hfirst (by decide)
      rw [List.replicate_succ, List.cons_append, indexOf, if_neg hspace, ih]
      exact congrArg some (show n + i + 1 = n + 1 + i by omega)
  rw [indexFold, List.map_append, padding, List.map_replicate]
  exact hpad _ _ _ hclose

/-- The meta is written after a head that ends too late in one piece, and not in two. -/
theorem late_head_split {pad : GoString} (hlength : pad.length = shellMetaScanLimit + 1)
    (hindex : indexFold (pad ++ headCloseTag) headCloseTag = some (shellMetaScanLimit + 1)) :
    serveSPA (lit "m") { contentType := lit "text/html" } [pad ++ headCloseTag] ≠
      serveSPA (lit "m") { contentType := lit "text/html" } [pad, headCloseTag] := by
  intro hboth
  have hcandidate : htmlShellCandidate { contentType := lit "text/html" } = true := by decide
  have hone : ¬ Overran [] [pad ++ headCloseTag] (shellMetaScanLimit + 1 + headCloseTag.length) := by
    rintro ⟨before, hpre, hlong, hstop⟩
    cases before with
    | nil => exact absurd hlong (Nat.not_lt_zero _)
    | cons p before =>
      obtain ⟨rfl, _⟩ := List.cons_prefix_cons.1 hpre
      rw [List.nil_append, List.flatten_cons, List.length_append, List.length_append, hlength] at hstop
      omega
  have htwo : Overran [] [pad, headCloseTag] (shellMetaScanLimit + 1 + headCloseTag.length) := by
    refine ⟨[pad], ⟨[headCloseTag], rfl⟩, ?_, ?_⟩
    · rw [List.nil_append, List.flatten_singleton, hlength]
      exact Nat.lt_succ_self _
    · rw [List.nil_append, List.flatten_singleton, hlength]
      exact Nat.lt_add_of_pos_right (by decide)
  have hinserted := (serveSPA_decides (lit "m") hcandidate [pad ++ headCloseTag]).found (shellMetaScanLimit + 1)
    (by rw [List.nil_append, List.flatten_singleton]; exact hindex) hone
  have hkept := (serveSPA_decides (lit "m") hcandidate [pad, headCloseTag]).overran (shellMetaScanLimit + 1)
    (by rw [List.nil_append, List.flatten_cons, List.flatten_singleton]; exact hindex) htwo
  rw [hinserted, hkept] at hboth
  have hlengths := congrArg List.length hboth
  simp only [insertAt, List.length_append, List.length_take, List.length_drop, List.nil_append, List.flatten_cons, List.flatten_nil,
    List.length_nil, hlength] at hlengths
  have hmeta : (lit "m").length = 1 := by decide
  omega

end Shell

end Ploykit.Renderx

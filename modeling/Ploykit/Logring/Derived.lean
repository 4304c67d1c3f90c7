import Ploykit.Logring.Baked

/-!
# Derived loggers

A derived logger should capture its attributes as if they were logged with the record, each under
the groups at which it was added. Two things stand against it: an attribute that is baked in another
way than it is flattened, and two loggers derived from one that share the array of their attributes,
so that the younger one writes over those of the older.
-/

namespace Ploykit.Logring

open Lib

variable {grow : Nat → Nat → Nat} {redact scrub : String → String} {opt : Options}

/-! ## What should be captured -/

/-- The attributes that were added to a logger, each under its groups, and the groups of the record. -/
structure Derived where
  groups : List String := []
  attrs : List (List String × Slog.Attr) := []

namespace Derived

def withAttrs (d : Derived) (attrs : List Slog.Attr) : Derived := { d with attrs := d.attrs ++ attrs.map (d.groups, ·) }

def withGroup (d : Derived) (name : String) : Derived := if name = "" then d else { d with groups := d.groups ++ [name] }

/-- The entry when the attributes are logged with the record. -/
def entry (d : Derived) (redact : String → String) (rid : String) (rec : Record) : Entry where
  time := rec.time
  level := rec.level
  message := redact rec.message
  requestID := rid
  attrs := (d.attrs.flatMap fun p => flattenAttr redact p.1 p.2.1 p.2.2) ++ flattenAttrs redact d.groups rec.attrs

end Derived

def derive (ds : List Derived) : Op → List Derived
  | .withAttrs i attrs => ds ++ (ds[i]?.map fun d => d.withAttrs attrs).toList
  | .withGroup i name => ds ++ (ds[i]?.map fun d => d.withGroup name).toList
  | .handle .. => ds

def derivations (ops : List Op) : List Derived := ops.foldl derive [{}]

/-! ## The condition -/

/-- Every attribute is baked as it is flattened, and none is written over another logger's. -/
def Safe (s : Loggers) : Op → Prop
  | .withAttrs i attrs => ∀ h, s.handlers[i]? = some h →
    (∀ a ∈ attrs, Plain h.groups a) ∧ ∀ h' ∈ s.handlers, h.prebaked.Apart s.heap h'.prebaked (attrs.flatMap (flattened h.groups))
  | _ => True

/-! ## Redaction -/

mutual

theorem flattenAttr_eq_map (redact : String → String) (groups : List String) (key : String) : ∀ v : Slog.Value,
    flattenAttr redact groups key v = (flattenAttr id groups key v).map fun a => { a with value := redact a.value }
  | .null => by
    rw [flattenAttr, flattenAttr]
    split <;> rfl
  | .text s => by
    rw [flattenAttr, flattenAttr]
    rfl
  | .group attrs => by
    rw [flattenAttr, flattenAttr]
    exact flattenAttrs_eq_map redact (groups ++ [key]) attrs

theorem flattenAttrs_eq_map (redact : String → String) (groups : List String) : ∀ attrs : List Slog.Attr,
    flattenAttrs redact groups attrs = (flattenAttrs id groups attrs).map fun a => { a with value := redact a.value }
  | [] => by
    rw [flattenAttrs, flattenAttrs]
    rfl
  | (key, v) :: attrs => by
    rw [flattenAttrs, flattenAttrs, flattenAttr_eq_map redact groups key v, flattenAttrs_eq_map redact groups attrs, List.map_append]

end

/-! ## One step -/

/-- A logger holds what was added to it. -/
structure Faithful (heap : Arrays Attr) (h : Handler) (d : Derived) : Prop where
  groups : h.groups = d.groups
  contents : h.prebaked.contents heap = d.attrs.flatMap fun p => flattened p.1 p.2

/-- All loggers do. -/
structure Holds (s : Loggers) (ds : List Derived) : Prop where
  valid : ∀ h ∈ s.handlers, h.prebaked.Valid s.heap
  faithful : List.Forall₂ (Faithful s.heap) s.handlers ds

variable {s : Loggers} {ds : List Derived} {handler : Handler} {d : Derived}

theorem forall₂_concat_iff {β γ : Type} {R : β → γ → Prop} {l : List β} {l' : List γ} {b : β} {c : γ} :
    List.Forall₂ R (l ++ [b]) (l' ++ [c]) ↔ List.Forall₂ R l l' ∧ R b c := by
  have hreverse : List.Forall₂ R l.reverse l'.reverse ↔ List.Forall₂ R l l' := List.forall₂_reverse_iff
  rw [← List.forall₂_reverse_iff, List.reverse_append, List.reverse_append, ← hreverse, and_comm]
  exact List.forall₂_cons

/-- Other loggers hold the same in a heap where their attributes are the same. -/
theorem forall₂_faithful_iff {handlers : List Handler} {heap : Arrays Attr} (h : List.Forall₂ (Faithful heap) handlers ds)
    (heap' : Arrays Attr) :
    List.Forall₂ (Faithful heap') handlers ds ↔ ∀ handler ∈ handlers, handler.prebaked.contents heap' = handler.prebaked.contents heap := by
  induction h with
  | nil => exact iff_of_true .nil fun _ hmem => (List.not_mem_nil hmem).elim
  | cons hhead _ ih =>
    rw [List.forall₂_cons, List.forall_mem_cons, ih]
    refine and_congr_left fun _ => ⟨fun h => h.contents.trans hhead.contents.symm, fun h => ⟨hhead.groups, h.trans hhead.contents⟩⟩

theorem step_withAttrs {i : Nat} {attrs : List Slog.Attr} (hi : s.handlers[i]? = some handler) :
    s.step grow scrub (.withAttrs i attrs) =
      { s with
        heap := (handler.prebaked.appendAll grow s.heap (attrs.flatMap (bakedOf handler.groups))).1
        handlers := s.handlers ++
          [{ handler with prebaked := (handler.prebaked.appendAll grow s.heap (attrs.flatMap (bakedOf handler.groups))).2 }] } := by
  rw [Loggers.step, hi]
  show { s with heap := (handler.withAttrs grow s.heap attrs).1, handlers := s.handlers ++ [(handler.withAttrs grow s.heap attrs).2] } = _
  rw [withAttrs_eq]

namespace Holds

theorem getElem? (h : Holds s ds) {i : Nat} {handler : Handler} (hi : s.handlers[i]? = some handler) :
    ∃ d, ds[i]? = some d ∧ Faithful s.heap handler d := by
  obtain ⟨hlt, rfl⟩ := List.getElem?_eq_some_iff.1 hi
  have hlt' : i < ds.length := h.faithful.length_eq ▸ hlt
  exact ⟨ds[i], List.getElem?_eq_getElem hlt', h.faithful.get hlt hlt'⟩

theorem getElem?_none (h : Holds s ds) {i : Nat} (hi : s.handlers[i]? = none) : ds[i]? = none := by
  rw [List.getElem?_eq_none_iff] at hi ⊢
  exact h.faithful.length_eq ▸ hi

/-- The captured entry is the one with the attributes on the record. -/
theorem entry_eq (h : Faithful s.heap handler d) (rid : String) (rec : Record) :
    s.ring.entry scrub rid rec (handler.prebaked.contents s.heap) handler.groups = d.entry (s.ring.redactString scrub) rid rec := by
  have hbaked : (handler.prebaked.contents s.heap).map (fun a => { a with value := s.ring.redactString scrub a.value }) =
      d.attrs.flatMap fun p => flattenAttr (s.ring.redactString scrub) p.1 p.2.1 p.2.2 := by
    rw [h.contents, List.map_flatMap]
    exact List.flatMap_congr fun p _ => (flattenAttr_eq_map _ _ _ _).symm
  rw [Ring.entry, Derived.entry, hbaked, h.groups]

theorem withGroup (h : Holds s ds) (i : Nat) (name : String) :
    Holds (s.step grow scrub (.withGroup i name)) (derive ds (.withGroup i name)) := by
  rw [Loggers.step, derive]
  cases hi : s.handlers[i]? with
  | none =>
    rw [h.getElem?_none hi]
    simpa using h
  | some handler =>
    obtain ⟨d, hd, hfaithful⟩ := h.getElem? hi
    rw [hd]
    have hderived : Faithful s.heap (handler.withGroup name) (d.withGroup name) := by
      unfold Handler.withGroup Derived.withGroup
      by_cases hname : name = ""
      · rw [if_pos hname, if_pos hname]
        exact hfaithful
      · rw [if_neg hname, if_neg hname]
        exact ⟨congrArg (· ++ [name]) hfaithful.groups, hfaithful.contents⟩
    have hslice : (handler.withGroup name).prebaked = handler.prebaked := by
      unfold Handler.withGroup
      split <;> rfl
    refine ⟨fun h' hmem => ?_, forall₂_concat_iff.2 ⟨h.faithful, hderived⟩⟩
    rcases List.mem_append.1 hmem with hold | hnew
    · exact h.valid h' hold
    · rw [List.mem_singleton.1 hnew, hslice]
      exact h.valid handler (List.mem_of_getElem? hi)

/-- All loggers hold what was added to them after attributes are added to one, exactly when that is safe. -/
theorem withAttrs_iff (h : Holds s ds) (i : Nat) (attrs : List Slog.Attr) :
    Holds (s.step grow scrub (.withAttrs i attrs)) (derive ds (.withAttrs i attrs)) ↔ Safe s (.withAttrs i attrs) := by
  rw [derive]
  cases hi : s.handlers[i]? with
  | none =>
    have hnone : ∀ handler, s.handlers[i]? ≠ some handler := fun handler hsome => Option.some_ne_none _ (hsome.symm.trans hi)
    rw [h.getElem?_none hi, Loggers.step, hi]
    exact iff_of_true (by simpa using h) fun handler hsome => absurd hsome (hnone handler)
  | some handler =>
    obtain ⟨d, hd, hfaithful⟩ := h.getElem? hi
    have hvalid := h.valid handler (List.mem_of_getElem? hi)
    rw [hd, step_withAttrs hi]
    have hnew : Faithful (handler.prebaked.appendAll grow s.heap (attrs.flatMap (bakedOf handler.groups))).1
        { handler with prebaked := (handler.prebaked.appendAll grow s.heap (attrs.flatMap (bakedOf handler.groups))).2 }
        (d.withAttrs attrs) ↔ ∀ a ∈ attrs, Plain handler.groups a := by
      have hcontents : (handler.prebaked.appendAll grow s.heap (attrs.flatMap (bakedOf handler.groups))).2.contents _ = _ :=
        Slice.contents_appendAll hvalid
      have hadded : (d.withAttrs attrs).attrs.flatMap (fun p => flattened p.1 p.2) =
          handler.prebaked.contents s.heap ++ attrs.flatMap (flattened handler.groups) := by
        rw [Derived.withAttrs, List.flatMap_append, ← hfaithful.contents, hfaithful.groups, List.flatMap_map]
      rw [← flatMap_bakedOf_eq_iff]
      constructor
      · exact fun hnew => List.append_cancel_left (hcontents.symm.trans (hnew.contents.trans hadded))
      · exact fun heq => ⟨hfaithful.groups, by rw [hadded, ← heq]; exact hcontents⟩
    have hothers := forall₂_faithful_iff h.faithful (handler.prebaked.appendAll grow s.heap (attrs.flatMap (bakedOf handler.groups))).1
    constructor
    · intro hholds handler' hsome
      obtain rfl := Option.some.inj (hi.symm.trans hsome)
      obtain ⟨hold, hlast⟩ := forall₂_concat_iff.1 hholds.faithful
      have hplain := hnew.1 hlast
      refine ⟨hplain, fun h' hmem => ?_⟩
      rw [← flatMap_bakedOf_eq_iff.2 hplain]
      exact (Slice.contents_appendAll_other_iff hvalid (h.valid h' hmem)).1 (hothers.1 hold h' hmem)
    · intro hsafe
      obtain ⟨hplain, hapart⟩ := hsafe handler hi
      refine ⟨fun h' hmem => ?_, forall₂_concat_iff.2 ⟨hothers.2 fun h' hmem => ?_, hnew.2 hplain⟩⟩
      · rcases List.mem_append.1 hmem with hold | hderived
        · exact Slice.appendAll_valid_other (h.valid h' hold)
        · rw [List.mem_singleton.1 hderived]
          exact Slice.appendAll_valid hvalid
      · rw [Slice.contents_appendAll_other_iff hvalid (h.valid h' hmem), flatMap_bakedOf_eq_iff.2 hplain]
        exact hapart h' hmem

theorem step_iff (h : Holds s ds) (op : Op) : Holds (s.step grow scrub op) (derive ds op) ↔ Safe s op := by
  cases op with
  | withAttrs i attrs => exact h.withAttrs_iff i attrs
  | withGroup i name => exact iff_of_true (h.withGroup i name) trivial
  | handle i rid rec =>
    refine iff_of_true ?_ trivial
    rw [Loggers.step]
    cases s.handlers[i]? with
    | none => exact h
    | some handler => exact ⟨h.valid, h.faithful⟩

end Holds

/-! ## Runs -/

theorem Holds.new (opt : Options) : Holds (Loggers.new opt) [{}] where
  valid h hmem := by
    rw [List.mem_singleton.1 hmem]
    exact ⟨Nat.zero_lt_one, Nat.le_refl _⟩
  faithful := .cons ⟨rfl, rfl⟩ .nil

/-- Every step of a run from the state is safe. -/
def AllSafe (grow : Nat → Nat → Nat) (scrub : String → String) (s : Loggers) : List Op → Prop
  | [] => True
  | op :: ops => Safe s op ∧ AllSafe grow scrub (s.step grow scrub op) ops

/-- All loggers hold what was added to them throughout a run exactly when its steps are safe. -/
theorem Holds.run_iff (h : Holds s ds) (ops : List Op) :
    (∀ before, before <+: ops → Holds (before.foldl (Loggers.step grow scrub) s) (before.foldl derive ds)) ↔ AllSafe grow scrub s ops := by
  induction ops generalizing s ds with
  | nil =>
    refine iff_of_true (fun before hbefore => ?_) trivial
    rw [List.prefix_nil.1 hbefore]
    exact h
  | cons op ops ih =>
    rw [AllSafe, ← h.step_iff op]
    constructor
    · intro hall
      have hnext : Holds (s.step grow scrub op) (derive ds op) := hall [op] ⟨ops, rfl⟩
      exact ⟨hnext, (ih hnext).1 fun before hbefore => hall (op :: before) ((List.prefix_cons_inj op).2 hbefore)⟩
    · rintro ⟨hnext, hsafe⟩ before hbefore
      cases before with
      | nil => exact h
      | cons op' before =>
        obtain ⟨rfl, hrest⟩ := List.cons_prefix_cons.1 hbefore
        exact (ih hnext).2 hsafe before hrest

theorem step_redact (op : Op) : (s.step grow scrub op).ring.redact = s.ring.redact := by
  cases op with
  | withAttrs i attrs =>
    rw [Loggers.step]
    cases s.handlers[i]? <;> rfl
  | withGroup i name =>
    rw [Loggers.step]
    cases s.handlers[i]? <;> rfl
  | handle i rid rec =>
    rw [Loggers.step]
    cases s.handlers[i]? with
    | none => rfl
    | some handler => exact Ring.store_redact _ _

/-- The entry that a record makes when it is logged through the logger. -/
def Loggers.captures (s : Loggers) (scrub : String → String) (i : Nat) (rid : String) (rec : Record) : Option Entry :=
  s.handlers[i]?.map fun h => s.ring.entry scrub rid rec (h.prebaked.contents s.heap) h.groups

theorem Holds.captures (h : Holds s ds) (i : Nat) (rid : String) (rec : Record) :
    s.captures scrub i rid rec = ds[i]?.map fun d => d.entry (s.ring.redactString scrub) rid rec := by
  rw [Loggers.captures]
  cases hi : s.handlers[i]? with
  | none => rw [h.getElem?_none hi]; rfl
  | some handler =>
    obtain ⟨d, hd, hfaithful⟩ := h.getElem? hi
    rw [hd]
    exact congrArg some (Holds.entry_eq hfaithful rid rec)

theorem run_redactString (ops : List Op) :
    (Loggers.run grow scrub opt ops).ring.redactString scrub = (Ring.new opt).redactString scrub := by
  have hredact : (Loggers.run grow scrub opt ops).ring.redact = (Ring.new opt).redact := by
    induction ops using List.reverseRecOn with
    | nil => rfl
    | append_singleton ops op ih =>
      rw [Loggers.run, List.foldl_concat, step_redact]
      exact ih
  funext t
  rw [Ring.redactString, hredact, Ring.redactString]

/-- Loggers that were derived before stay, in their place. -/
theorem derive_getElem? (ds : List Derived) (op : Op) {i : Nat} (hi : i < ds.length) : (derive ds op)[i]? = ds[i]? := by
  cases op with
  | withAttrs j attrs => exact List.getElem?_append_left hi
  | withGroup j name => exact List.getElem?_append_left hi
  | handle j rid rec => rfl

/-- Throughout the run each logger captures what logging its attributes with the record captures, and no step changes that. -/
structure AsLogged (grow : Nat → Nat → Nat) (scrub : String → String) (opt : Options) (ops : List Op) : Prop where
  captures : ∀ before, before <+: ops → ∀ i rid rec, (Loggers.run grow scrub opt before).captures scrub i rid rec =
    (derivations before)[i]?.map fun d => d.entry ((Ring.new opt).redactString scrub) rid rec
  kept : ∀ before op, before ++ [op] <+: ops → ∀ i rid rec, i < (Loggers.run grow scrub opt before).handlers.length →
    (Loggers.run grow scrub opt (before ++ [op])).captures scrub i rid rec = (Loggers.run grow scrub opt before).captures scrub i rid rec

theorem captured_as_logged (grow : Nat → Nat → Nat) (scrub : String → String) (opt : Options) (ops : List Op)
    (hsafe : AllSafe grow scrub (Loggers.new opt) ops) : AsLogged grow scrub opt ops := by
  have hholds : ∀ before, before <+: ops → Holds (Loggers.run grow scrub opt before) (derivations before) :=
    ((Holds.new opt).run_iff ops).2 hsafe
  have hcaptures : ∀ before, before <+: ops → ∀ i rid rec, (Loggers.run grow scrub opt before).captures scrub i rid rec =
      (derivations before)[i]?.map fun d => d.entry ((Ring.new opt).redactString scrub) rid rec := by
    intro before hbefore i rid rec
    rw [(hholds before hbefore).captures, run_redactString]
  refine ⟨hcaptures, fun before op hbefore i rid rec hi => ?_⟩
  have hprefix : before <+: ops := (List.prefix_append before [op]).trans hbefore
  have hlength := (hholds before hprefix).faithful.length_eq
  have hsame : (derivations (before ++ [op]))[i]? = (derivations before)[i]? := by
    rw [derivations, List.foldl_concat]
    exact derive_getElem? _ op (hlength ▸ hi)
  rw [hcaptures _ hbefore, hcaptures _ hprefix, hsame]

/-! ## Two loggers that go wrong -/

/-- How the runtime grows a small array of attributes. -/
def doubled (cap needed : Nat) : Nat := max needed (2 * cap)

def hello : Record := { time := 0, level := 0, message := "hello", attrs := [("n", .text "1")] }

theorem captured_as_logged_once : AsLogged doubled id {}
    [.withAttrs 0 [("a", .group [("b", .text "1")])], .withGroup 1 "g", .withAttrs 2 [("c", .text "2")], .handle 3 "r" hello] := by
  refine captured_as_logged _ _ _ _ ⟨fun h hh => ?_, trivial, fun h hh => ?_, trivial, trivial⟩
  · obtain rfl := Option.some.inj hh
    refine ⟨fun a ha => ?_, fun h' _ _ k x y hk => absurd hk (Nat.not_lt_zero _)⟩
    rw [List.mem_singleton.1 ha]
    refine .inr ⟨rfl, by decide, fun ga hga => ?_⟩
    rw [List.mem_singleton.1 hga]
    exact Bool.false_ne_true
  · obtain rfl := Option.some.inj hh
    refine ⟨fun a ha => ?_, fun h' _ _ k x y hk => absurd hk (Nat.not_lt.2 (Nat.le_add_right 1 k))⟩
    rw [List.mem_singleton.1 ha]
    trivial

def siblings : List Op :=
  [.withAttrs 0 [("a", .text "1"), ("b", .text "2"), ("c", .text "3")], .withAttrs 1 [("d", .text "4")], .withAttrs 1 [("e", .text "5")]]

def grouped : List Op := [.withGroup 0 "g", .withAttrs 1 [("a", .group [("b", .text "1")])]]

/-- The attribute of the younger sibling stands in the older one, and the outer group is named twice. -/
theorem siblings_overwrite : ¬ AsLogged doubled id {} siblings ∧ ¬ AsLogged doubled id {} grouped := by
  refine ⟨fun h => ?_, fun h => ?_⟩
  · have hentry := h.captures siblings (List.prefix_refl _) 2 "r" hello
    revert hentry
    decide
  · have hentry := h.captures grouped (List.prefix_refl _) 2 "r" hello
    revert hentry
    decide

end Ploykit.Logring

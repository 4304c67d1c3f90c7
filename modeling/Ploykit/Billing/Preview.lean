import Ploykit.Billing.Metering

/-!
# Previews

`UsagePreview` prices the dimensions of a plan one by one and adds up as it reads.
`CreateOverageOrder` prices the items that a round of metering has read.
Both compute in int64.
-/

namespace Ploykit.Billing

open Lib Script

/-! ## The preview -/

structure UsagePreviewItem where
  dim : String
  used : Int
  included : Int
  unitCents : Int
  projectedOverageCents : Int
  deriving DecidableEq, Repr

structure UsagePreview where
  period : String
  items : List UsagePreviewItem := []
  projectedTotalCents : Int := 0
  deriving DecidableEq, Repr

/-- The item of a dimension. -/
def MeteredDim.preview (m : MeteredDim) (used : Int) : UsagePreviewItem :=
  let overUnits := Quota.wrap64 (used - m.included)
  ⟨m.dim, used, m.included, m.unitCents, if overUnits > 0 then Quota.wrap64 (overUnits * m.unitCents) else 0⟩

def UsagePreview.add (pv : UsagePreview) (item : UsagePreviewItem) : UsagePreview :=
  { pv with
    items := pv.items ++ [item]
    projectedTotalCents := Quota.wrap64 (pv.projectedTotalCents + item.projectedOverageCents) }

/-- The loop of `UsagePreview`. -/
def previewDims (workspaceID : String) : List MeteredDim → UsagePreview → Svc (Except Err UsagePreview)
  | [], pv => return .ok pv
  | m :: ms, pv => do
    orReturn (← Script.op (.usage workspaceID m.dim pv.period)) fun used =>
      previewDims workspaceID ms (pv.add (m.preview used))

def currentPeriod (now : Time) : String :=
  let d := Calendar.date now
  Calendar.padded 4 d.year.toNat ++ "-" ++ Calendar.padded 2 d.month.toNat

def usagePreview (now : Time) (workspaceID : String) : Svc (Except Err UsagePreview) := do
  orReturn (← Script.op (.getWorkspacePlan workspaceID)) fun planCode => do
  orReturn (← Script.op (.getPlan planCode)) fun found => do
  match found with
  | none => return .ok ⟨currentPeriod now, [], 0⟩
  | some plan => previewDims workspaceID (meteredDims plan.limits) ⟨currentPeriod now, [], 0⟩

/-! ## What is read -/

section reads

variable {w : World} {now : Time} {ws : String} {used : String → Int} {dims : List MeteredDim} {s s' : Db}
  {pv pv' : UsagePreview} {may : {β : Type} → Op β → Db → Prop}

theorem path_previewDims (hused : ∀ m ∈ dims, w.usage ws m.dim pv.period = .ok (used m.dim))
    (h : Path (Op.Does w may) (previewDims ws dims pv) s (ret (.ok pv')) s') :
    pv' = dims.foldl (fun pv m => pv.add (m.preview (used m.dim))) pv := by
  induction dims generalizing s pv with
  | nil =>
    obtain ⟨hret, -⟩ := h.ret_eq
    cases hret
    rfl
  | cons m dims ih =>
    obtain ⟨r, s₁, husage, hrest⟩ := h.call_ret
    cases husage with
    | inl hexec =>
      obtain ⟨hr, -⟩ := Prod.mk.inj hexec
      rw [hused m List.mem_cons_self] at hr
      cases hr
      exact ih (fun d hd => hused d (List.mem_cons_of_mem _ hd)) hrest
    | inr hfails =>
      obtain ⟨⟨-, msg, rfl⟩, -⟩ := hfails
      cases hrest.ret_eq.1

/-- The preview of a workspace that has a plan is read off the limits of this plan. -/
theorem path_usagePreview {row : Workspace} {plan : Plan} (hrow : s.workspace ws = some row)
    (hplan : s.plan row.planCode = some plan)
    (hused : ∀ m ∈ meteredDims plan.limits, w.usage ws m.dim (currentPeriod now) = .ok (used m.dim))
    (h : Path (Op.Does w may) (usagePreview now ws) s (ret (.ok pv)) s') :
    pv = (meteredDims plan.limits).foldl (fun pv m => pv.add (m.preview (used m.dim))) ⟨currentPeriod now, [], 0⟩ := by
  obtain ⟨r, s₁, hcode, h⟩ := h.call_ret
  cases hcode with
  | inr hfails =>
    obtain ⟨⟨-, msg, rfl⟩, -⟩ := hfails
    cases h.ret_eq.1
  | inl hexec =>
    obtain ⟨rfl, rfl⟩ := Prod.mk.inj hexec
    simp only [hrow] at h
    obtain ⟨r, s₁, hfound, h⟩ := h.call_ret
    cases hfound with
    | inr hfails =>
      obtain ⟨⟨-, msg, rfl⟩, -⟩ := hfails
      cases h.ret_eq.1
    | inl hexec =>
      obtain ⟨rfl, rfl⟩ := Prod.mk.inj hexec
      simp only [Option.map_some, Option.getD_some, hplan] at h
      exact path_previewDims hused h

/-- The items of a round that reads the usage of every dimension. -/
theorem readItems_eq {period : String} (hused : ∀ m ∈ dims, w.usage ws m.dim period = .ok (used m.dim)) :
    w.readItems ws period dims = itemsOf used dims := by
  induction dims with
  | nil => rfl
  | cons m dims ih =>
    rw [World.readItems, List.filterMap_cons, hused m List.mem_cons_self]
    exact congrArg _ (ih fun d hd => hused d (List.mem_cons_of_mem _ hd))

end reads

/-! ## What it amounts to -/

section amounts

variable {used : String → Int} {dims : List MeteredDim} {its : List OverageMetaItem} {items : List OverageItem}

theorem bigint_wrap64 (x : Int) : Quota.wrap64 (Quota.wrap64 x) = Quota.wrap64 x := by
  simp only [Quota.wrap64]
  omega

/-- Both loops add the same, each in its own order of comparing and multiplying. -/
theorem previewTotal_eq (hpos : ∀ m ∈ dims, 0 < m.unitCents) {pv : UsagePreview}
    (hwrap : Quota.wrap64 pv.projectedTotalCents = pv.projectedTotalCents) :
    (dims.foldl (fun pv m => pv.add (m.preview (used m.dim))) pv).projectedTotalCents
      = (overageItems (itemsOf used dims)).foldl (fun amount it => Quota.wrap64 (amount + it.overageCents))
          pv.projectedTotalCents := by
  induction dims generalizing pv with
  | nil => rfl
  | cons m dims ih =>
    have hunit : ¬ m.unitCents ≤ 0 := not_le.2 (hpos m List.mem_cons_self)
    have hitems : overageItems (itemsOf used (m :: dims))
        = overageItems (itemsOf used [m]) ++ overageItems (itemsOf used dims) := overageItems_cons _ _
    rw [List.foldl_cons, ih (fun d hd => hpos d (List.mem_cons_of_mem _ hd)) (bigint_wrap64 _), hitems, List.foldl_append]
    congr 1
    by_cases hover : 0 < Quota.wrap64 (used m.dim - m.included)
    · have hcounts : ¬ (Quota.wrap64 (used m.dim - m.included) ≤ 0 ∨ m.unitCents ≤ 0) :=
        not_or.2 ⟨not_le.2 hover, hunit⟩
      simp only [UsagePreview.add, MeteredDim.preview, gt_iff_lt, if_pos hover, itemsOf, overageItems, List.map_cons,
        List.map_nil, List.filterMap_cons, List.filterMap_nil, if_neg hcounts, List.foldl_cons, List.foldl_nil]
    · have hskip : Quota.wrap64 (used m.dim - m.included) ≤ 0 ∨ m.unitCents ≤ 0 := .inl (not_lt.1 hover)
      simp only [UsagePreview.add, MeteredDim.preview, gt_iff_lt, if_neg hover, Int.add_zero, hwrap, itemsOf, overageItems,
        List.map_cons, List.map_nil, List.filterMap_cons, List.filterMap_nil, if_pos hskip, List.foldl_nil]

/-- The amounts of the items, as they are before any overflow, fit the column together. -/
def InColumn (its : List OverageMetaItem) : Prop := (its.map fun it => it.overageUnits * it.unitCents).sum < 2 ^ 31

theorem overageItem_pos {it : OverageMetaItem} (h : it ∈ overageItems items) :
    0 < it.overageUnits ∧ 0 < it.unitCents ∧ it.overageCents = Quota.wrap64 (it.overageUnits * it.unitCents) := by
  obtain ⟨i, -, hi⟩ := List.mem_filterMap.1 h
  dsimp only at hi
  split at hi
  · cases hi
  · rename_i hcounts
    cases hi
    simp only [not_or, not_le] at hcounts
    exact ⟨hcounts.1, hcounts.2, rfl⟩

/-- In the range of the column nothing overflows. -/
theorem foldl_overageCents (hits : ∀ it ∈ its, 0 < it.overageUnits ∧ 0 < it.unitCents
      ∧ it.overageCents = Quota.wrap64 (it.overageUnits * it.unitCents)) {acc : Int} (hacc : 0 ≤ acc)
    (hrange : acc + (its.map fun it => it.overageUnits * it.unitCents).sum < 2 ^ 31) :
    (∀ it ∈ its, it.overageCents = it.overageUnits * it.unitCents) ∧
      its.foldl (fun amount it => Quota.wrap64 (amount + it.overageCents)) acc
        = acc + (its.map fun it => it.overageUnits * it.unitCents).sum := by
  induction its generalizing acc with
  | nil => simp
  | cons it its ih =>
    obtain ⟨hunits, hunit, hcents⟩ := hits it List.mem_cons_self
    have hrest : ∀ i ∈ its, 0 < i.overageUnits ∧ 0 < i.unitCents ∧ i.overageCents = Quota.wrap64 (i.overageUnits * i.unitCents) :=
      fun i hi => hits i (List.mem_cons_of_mem _ hi)
    have hpos : 0 < it.overageUnits * it.unitCents := Int.mul_pos hunits hunit
    have hsum : 0 ≤ (its.map fun it => it.overageUnits * it.unitCents).sum := by
      refine List.sum_nonneg fun x hx => ?_
      obtain ⟨i, hi, rfl⟩ := List.mem_map.1 hx
      exact (Int.mul_pos (hrest i hi).1 (hrest i hi).2.1).le
    rw [List.map_cons, List.sum_cons] at hrange
    have hexact : it.overageCents = it.overageUnits * it.unitCents :=
      hcents.trans (Quota.wrap64_of_bigint ⟨by omega, by omega⟩)
    have hadd : Quota.wrap64 (acc + it.overageCents) = acc + it.overageCents :=
      Quota.wrap64_of_bigint ⟨by omega, by omega⟩
    have hmore : 0 ≤ acc + it.overageCents := by omega
    obtain ⟨hexacts, hfold⟩ := ih hrest hmore (by omega)
    constructor
    · intro i hi
      cases List.mem_cons.1 hi with
      | inl heq => exact heq ▸ hexact
      | inr hmem => exact hexacts i hmem
    · rw [List.foldl_cons, hadd, hfold, hexact, List.map_cons, List.sum_cons, Int.add_assoc]

/-- The amounts of the items add up to the amount of the order, which the column holds. -/
theorem overageAmount_sum (hrange : InColumn (overageItems items)) :
    ((overageItems items).map (·.overageCents)).sum = overageAmount (overageItems items)
      ∧ 0 ≤ overageAmount (overageItems items) ∧ overageAmount (overageItems items) < 2 ^ 31 := by
  obtain ⟨hexacts, hfold⟩ := foldl_overageCents (fun it => overageItem_pos) le_rfl (by rwa [Int.zero_add])
  have hamount : overageAmount (overageItems items) = ((overageItems items).map fun it => it.overageUnits * it.unitCents).sum := by
    rw [overageAmount, hfold, Int.zero_add]
  have hnonneg : 0 ≤ ((overageItems items).map fun it => it.overageUnits * it.unitCents).sum := by
    refine List.sum_nonneg fun x hx => ?_
    obtain ⟨i, hi, rfl⟩ := List.mem_map.1 hx
    obtain ⟨hunits, hunit, -⟩ := overageItem_pos hi
    exact (Int.mul_pos hunits hunit).le
  rw [hamount]
  exact ⟨congrArg List.sum (List.map_congr_left hexacts), hnonneg, hrange⟩

end amounts

/-! ## The order -/

section order

variable {w : World} {cfg : Config} {ws period : String} {items : List OverageItem} {s s' : Db}
  {may : {β : Type} → Op β → Db → Prop}

/-- The row of an order of these items. -/
structure OrderRow.Bills (row : OrderRow) (items : List OverageItem) : Prop where
  amountCents : row.amountCents = overageAmount (overageItems items)
  items : row.metadata.items = overageItems items
  pos : 0 < row.amountCents

/-- Whatever fails, an order that is new after the call is the one of these items. -/
theorem path_createOverageOrder_row {m : Svc (Except Err (Option Order))}
    (h : Path (Op.Does w may) (createOverageOrder cfg ws period items) s m s') (hnone : s.overages ws period = []) :
    s'.overages ws period = [] ∨ ∃ row : OrderRow, s'.overages ws period = [row] ∧ row.Bills items := by
  unfold createOverageOrder at h
  dsimp only at h
  split at h
  · rw [h.ret_eq.2]
    exact .inl hnone
  rename_i hpos
  cases h.bind_cases with
  | inl hstops =>
    obtain ⟨m', -, hm⟩ := hstops
    rw [path_overageCurrency hm]
    exact .inl hnone
  | inr hgoes =>
    obtain ⟨currency, s₁, hm, hins⟩ := hgoes
    cases path_overageCurrency hm
    cases hins.call_cases with
    | inl hstops =>
      rw [hstops.2]
      exact .inl hnone
    | inr hgoes =>
      obtain ⟨r, s₂, hdoes, hend⟩ := hgoes
      rw [hend.ret_eq.2]
      cases hdoes with
      | inr hfails =>
        rw [hfails.2]
        exact .inl hnone
      | inl hexec =>
        rw [← show _ = s₂ from congrArg Prod.snd hexec]
        cases insertOverageOrder_cases with
        | inl hsame =>
          rw [hsame]
          exact .inl hnone
        | inr hrow =>
          obtain ⟨row, hrow⟩ := hrow
          obtain ⟨hid, hinserted⟩ := hrow.inserted
          have hperiod : row.metadata.overagePeriod = some period := congrArg Metadata.overagePeriod hrow.metadata
          refine .inr ⟨row, ?_, hrow.amountCents, congrArg Metadata.items hrow.metadata, ?_⟩
          · rw [hinserted, Db.overages_insert, hnone, if_pos ⟨hrow.workspaceID, hperiod⟩]
            rfl
          · rw [hrow.amountCents]
            exact not_le.1 hpos

/-- Where nothing fails an order is created if the amount is positive. -/
theorem overages_createOverageOrder {row : Workspace} (hws : s.workspace ws = some row)
    (hplan : (s.plan row.planCode).isSome) (hfresh : s.Fresh w) (hnone : s.overages ws period = [])
    (hfits : overageAmount (overageItems items) < 2 ^ 31) :
    ((createOverageOrder cfg ws period items).run (Op.exec w) s).2.overages ws period = []
      ↔ overageAmount (overageItems items) ≤ 0 := by
  obtain ⟨o, rfl, hamount, hperiod, hrun⟩ := @run_createOverageOrder w cfg s ws period items
  rw [hrun]
  split
  · rename_i hle
    exact ⟨fun _ => hle, fun _ => hnone⟩
  · rename_i hpos
    refine ⟨fun hnil => ?_, fun hle => absurd hle hpos⟩
    exact absurd hnil (overages_insertOverageOrder hws hplan hfresh (by omega) (by omega) hperiod)

end order

section agreement

variable {w w' : World} {cfg : Config} {now : Time} {ws period : String} {used : String → Int} {s s' db db' : Db}
  {pv : UsagePreview} {row row' : Workspace} {plan : Plan} {items : List OverageItem}
  {may may' : {β : Type} → Op β → Db → Prop}

/-- The workspace is shown what its usage would cost, and the same usage is billed later under the same limits. -/
theorem previewed_is_billed (hrow : s.workspace ws = some row) (hplan : s.plan row.planCode = some plan)
    (hshown : ∀ m ∈ meteredDims plan.limits, w.usage ws m.dim (currentPeriod now) = .ok (used m.dim))
    (hpreview : Path (Op.Does w may) (usagePreview now ws) s (ret (.ok pv)) s')
    (hread : Path (Op.Does w' exceptUsage) (readUsage ws period (meteredDims plan.limits)) db (ret items) db)
    (hbilled : ∀ m ∈ meteredDims plan.limits, w'.usage ws m.dim period = .ok (used m.dim))
    (hnone : db.overages ws period = []) (hrange : InColumn (overageItems items)) :
    (∀ m db', Path (Op.Does w' may') (createOverageOrder cfg ws period items) db m db' →
      db'.overages ws period = [] ∨ ∃ o, db'.overages ws period = [o] ∧ o.amountCents = pv.projectedTotalCents
        ∧ (o.metadata.items.map (·.overageCents)).sum = o.amountCents)
    ∧ (db.workspace ws = some row' → (db.plan row'.planCode).isSome → db.Fresh w' →
      (((createOverageOrder cfg ws period items).run (Op.exec w') db).2.overages ws period = []
        ↔ pv.projectedTotalCents = 0)) := by
  have hitems : items = itemsOf used (meteredDims plan.limits) :=
    ((path_readUsage hread).2 items rfl).trans (readItems_eq hbilled)
  have hpv := path_usagePreview hrow hplan hshown hpreview
  have htotal : pv.projectedTotalCents = overageAmount (overageItems items) := by
    rw [hpv, hitems, previewTotal_eq (fun m hm => meteredDims_pos hm) rfl]
    rfl
  obtain ⟨hsum, hnonneg, hfits⟩ := overageAmount_sum hrange
  constructor
  · intro m db' hcreate
    cases path_createOverageOrder_row hcreate hnone with
    | inl hnil => exact .inl hnil
    | inr hone =>
      obtain ⟨o, hone, hbills⟩ := hone
      refine .inr ⟨o, hone, hbills.amountCents.trans htotal.symm, ?_⟩
      rw [hbills.items, hsum, hbills.amountCents]
  · intro hws hcode hfresh
    rw [overages_createOverageOrder hws hcode hfresh hnone hfits, htotal]
    omega

/-- The first workspace is shown what it is billed. -/
theorem previewed_is_billed_first : ∃ pv : UsagePreview,
    ((usagePreview 30 "w1").run (Op.exec fullWorld) subscribed).1 = .ok pv ∧ pv.projectedTotalCents = 120
    ∧ ((createOverageOrder smallConfig "w1" "1969-12" (itemsOf monthlyUsage (meteredDims firstMetered.limits))).run
        (Op.exec fullWorld) subscribed).2.overages "w1" "1969-12" ≠ [] := by
  have hmem : firstMetered ∈ subscribed.meteredWorkspaces :=
    List.mem_of_mem_take (i := batch 10) (subscribed_metered ▸ List.mem_singleton_self _)
  obtain ⟨row, plan, hrow, hplan, heq⟩ := Db.mem_meteredWorkspaces hmem
  have hlimits : firstMetered.limits = plan.limits := congrArg MeteredWorkspace.limits heq
  have hrun : ((usagePreview 30 "w1").run (Op.exec fullWorld) subscribed).1.toOption.map (·.projectedTotalCents) = some 120 := by
    decide
  have hpreview : Path (Op.Does fullWorld anyFails) (usagePreview 30 "w1") subscribed _ _ :=
    run_path (fun o s => Faulty.of_exec o s) _ _
  cases hpv : ((usagePreview 30 "w1").run (Op.exec fullWorld) subscribed).1 with
  | error err =>
    rw [hpv] at hrun
    cases hrun
  | ok pv =>
    rw [hpv] at hrun hpreview
    have htotal : pv.projectedTotalCents = 120 := Option.some.inj hrun
    have hread : Path (Op.Does fullWorld exceptUsage) (readUsage "w1" "1969-12" (meteredDims plan.limits)) subscribed _ _ :=
      run_path (fun o s => Faulty.of_exec o s) _ _
    rw [run_readUsage, @readItems_eq _ _ monthlyUsage _ _ fun _ _ => rfl] at hread
    have hrange : InColumn (overageItems (itemsOf monthlyUsage (meteredDims plan.limits))) := by
      rw [← hlimits, firstMetered_dims]
      unfold InColumn
      decide
    have hbilled := (@previewed_is_billed _ _ smallConfig _ _ _ _ _ _ _ _ _ _ _ _ _ anyFails hrow hplan (fun _ _ => rfl) hpreview hread
      (fun _ _ => rfl) (by decide) hrange).2 hrow (Option.isSome_iff_exists.2 ⟨plan, hplan⟩) subscribed_fresh
    refine ⟨pv, rfl, htotal, fun hnil => ?_⟩
    have hzero := hbilled.1 (hlimits ▸ hnil)
    omega

end agreement

end Ploykit.Billing

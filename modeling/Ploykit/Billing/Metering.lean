import Mathlib.Algebra.Order.Ring.Int
import Ploykit.Billing.Renewals

/-!
# Metering

A round of `MeterDueOverages` reads the usage of every dimension of its candidates
and inserts one order a workspace and month. The order is written once: what a round
has not been able to read is not in it, and no later round adds it.
-/

namespace Ploykit.Billing

open Lib Script

/-! ## Amounts -/

/-- What the use of a dimension costs beyond what the plan includes. -/
def MeteredDim.overage (m : MeteredDim) (used : Int) : Int := max 0 (used - m.included) * m.unitCents

/-- The usage fits the arithmetic of `CreateOverageOrder`, and the total fits the column. -/
structure Fits (used : String → Int) (dims : List MeteredDim) : Prop where
  units : ∀ m ∈ dims, -2 ^ 63 ≤ used m.dim - m.included
  total : (dims.map fun m => m.overage (used m.dim)).sum < 2 ^ 31

theorem meteredDims_pos {limits : Limits} {m : MeteredDim} (h : m ∈ meteredDims limits) :
    0 < m.unitCents := by
  rw [meteredDims, List.mem_insertionSort, List.mem_filter] at h
  exact of_decide_eq_true h.2

section

variable {used : String → Int} {dims dims' : List MeteredDim} {m : MeteredDim}

theorem MeteredDim.overage_nonneg (hpos : 0 < m.unitCents) (u : Int) : 0 ≤ m.overage u :=
  Int.mul_nonneg (Int.le_max_left ..) hpos.le

theorem overage_sum_nonneg (hpos : ∀ m ∈ dims, 0 < m.unitCents) :
    0 ≤ (dims.map fun m => m.overage (used m.dim)).sum := by
  refine List.sum_nonneg fun x hx => ?_
  obtain ⟨m, hm, rfl⟩ := List.mem_map.1 hx
  exact MeteredDim.overage_nonneg (hpos m hm) _

theorem overage_sum_le (hpos : ∀ m ∈ dims', 0 < m.unitCents) (hsub : dims.Sublist dims') :
    (dims.map fun m => m.overage (used m.dim)).sum ≤ (dims'.map fun m => m.overage (used m.dim)).sum := by
  refine (hsub.map _).sum_le_sum fun x hx => ?_
  obtain ⟨m, hm, rfl⟩ := List.mem_map.1 hx
  exact MeteredDim.overage_nonneg (hpos m hm) _

theorem Fits.sublist (h : Fits used dims') (hpos : ∀ m ∈ dims', 0 < m.unitCents) (hsub : dims.Sublist dims') :
    Fits used dims where
  units m hm := h.units m (hsub.mem hm)
  total := (overage_sum_le hpos hsub).trans_lt h.total

/-- The items of the dimensions. -/
def itemsOf (used : String → Int) (dims : List MeteredDim) : List OverageItem :=
  dims.map fun m => ⟨m.dim, used m.dim, m.included, m.unitCents⟩

theorem overageItems_cons (it : OverageItem) (its : List OverageItem) :
    overageItems (it :: its) = overageItems [it] ++ overageItems its :=
  List.filterMap_append (l := [it])

/-- The item of one dimension, in arithmetic that does not overflow. -/
theorem overageItems_single (hpos : 0 < m.unitCents) (hunits : -2 ^ 63 ≤ used m.dim - m.included)
    (htotal : m.overage (used m.dim) < 2 ^ 31) : overageItems (itemsOf used [m])
      = if 0 < used m.dim - m.included then [⟨m.dim, used m.dim, m.included, m.unitCents,
          used m.dim - m.included, m.overage (used m.dim)⟩] else [] := by
  by_cases hover : 0 < used m.dim - m.included
  · have hover' : m.overage (used m.dim) = (used m.dim - m.included) * m.unitCents := by
      rw [MeteredDim.overage, max_eq_right hover.le]
    have hle : used m.dim - m.included ≤ (used m.dim - m.included) * m.unitCents :=
      le_mul_of_one_le_right hover.le hpos
    rw [hover'] at htotal
    have hunits' : Quota.wrap64 (used m.dim - m.included) = used m.dim - m.included :=
      Quota.wrap64_of_bigint ⟨hunits, by omega⟩
    have hcents : Quota.wrap64 ((used m.dim - m.included) * m.unitCents)
        = (used m.dim - m.included) * m.unitCents := Quota.wrap64_of_bigint ⟨by omega, by omega⟩
    have hcounts : ¬ (used m.dim - m.included ≤ 0 ∨ m.unitCents ≤ 0) := by omega
    rw [if_pos hover, hover', itemsOf, overageItems]
    simp only [List.map_cons, List.map_nil, List.filterMap_cons, List.filterMap_nil, hunits', hcents,
      if_neg hcounts]
  · have hunits' : Quota.wrap64 (used m.dim - m.included) = used m.dim - m.included :=
      Quota.wrap64_of_bigint ⟨hunits, by omega⟩
    have hskip : used m.dim - m.included ≤ 0 ∨ m.unitCents ≤ 0 := .inl (by omega)
    rw [if_neg hover, itemsOf, overageItems]
    simp only [List.map_cons, List.map_nil, List.filterMap_cons, List.filterMap_nil, hunits', if_pos hskip]

/-- The sum that `CreateOverageOrder` adds up, from any amount on. -/
theorem foldl_overageItems (hpos : ∀ m ∈ dims, 0 < m.unitCents)
    (hunits : ∀ m ∈ dims, -2 ^ 63 ≤ used m.dim - m.included) {acc : Int} (hacc : 0 ≤ acc)
    (hbound : acc + (dims.map fun m => m.overage (used m.dim)).sum < 2 ^ 31) :
    (overageItems (itemsOf used dims)).foldl (fun amount it => Quota.wrap64 (amount + it.overageCents)) acc
      = acc + (dims.map fun m => m.overage (used m.dim)).sum := by
  induction dims generalizing acc with
  | nil => simp [itemsOf, overageItems]
  | cons m dims ih =>
    have hm := hpos m List.mem_cons_self
    have hrest : ∀ m ∈ dims, 0 < m.unitCents := fun m hm => hpos m (List.mem_cons_of_mem _ hm)
    have hsum := @overage_sum_nonneg used dims hrest
    have hover := MeteredDim.overage_nonneg hm (used m.dim)
    rw [List.map_cons, List.sum_cons] at hbound ⊢
    have hsingle := overageItems_single hm (hunits m List.mem_cons_self) (by omega)
    have hitems : overageItems (itemsOf used (m :: dims))
        = overageItems (itemsOf used [m]) ++ overageItems (itemsOf used dims) := overageItems_cons _ _
    have hacc' : (overageItems (itemsOf used [m])).foldl (fun amount it =>
        Quota.wrap64 (amount + it.overageCents)) acc = acc + m.overage (used m.dim) := by
      rw [hsingle]
      by_cases hunits' : 0 < used m.dim - m.included
      · rw [if_pos hunits']
        exact Quota.wrap64_of_bigint ⟨by simp only; omega, by simp only; omega⟩
      · rw [if_neg hunits', MeteredDim.overage, max_eq_left (by omega), Int.zero_mul, Int.add_zero]
        rfl
    rw [hitems, List.foldl_append, hacc', ih hrest (fun m hm => hunits m (List.mem_cons_of_mem _ hm))
      (by omega) (by omega), Int.add_assoc]

theorem overageAmount_eq (hpos : ∀ m ∈ dims, 0 < m.unitCents) (hfits : Fits used dims) :
    overageAmount (overageItems (itemsOf used dims)) = (dims.map fun m => m.overage (used m.dim)).sum := by
  have htotal := hfits.total
  have hfold := @foldl_overageItems used dims hpos hfits.units 0 le_rfl (by omega)
  rwa [Int.zero_add] at hfold

end

/-! ## Overage orders -/

/-- The overage orders of the workspace for the period. -/
def Db.overages (db : Db) (ws period : String) : List OrderRow :=
  db.orders.rows.filter fun o => o.workspaceID = ws ∧ o.metadata.overagePeriod = some period

/-- At most one order of the workspace and the period is added, and only where there is none;
its amount satisfies `Q`. -/
structure Db.Bills (ws period : String) (Q : Int → Prop) (db db' : Db) : Prop where
  workspaces : db'.workspaces = db.workspaces
  plans : db'.plans = db.plans
  overages : db'.overages ws period = db.overages ws period ∨
    db.overages ws period = [] ∧ ∃ o, db'.overages ws period = [o] ∧ Q o.amountCents

/-- The identifiers of the rows that are inserted next are new. -/
def Db.Fresh (w : World) (db : Db) : Prop :=
  ∀ n, db.orders.rows.length ≤ n → db.orders.get (w.newID n) = none

section

variable {w : World} {db db' db'' : Db} {ws period : String} {Q : Int → Prop} {o : Order} {row : OrderRow}

namespace Db

theorem Bills.refl (db : Db) : db.Bills ws period Q db := ⟨rfl, rfl, .inl rfl⟩

theorem Bills.trans (h : db.Bills ws period Q db') (h' : db'.Bills ws period Q db'') :
    db.Bills ws period Q db'' := by
  refine ⟨h'.workspaces.trans h.workspaces, h'.plans.trans h.plans, ?_⟩
  rcases h.overages with hsame | ⟨hnone, o, hone, hQ⟩
  · rw [← hsame]
    exact h'.overages
  · rcases h'.overages with hsame' | ⟨hnone', -⟩
    · exact .inr ⟨hnone, o, hsame'.trans hone, hQ⟩
    · cases hone.symm.trans hnone'

theorem hasOverage_iff : db.hasOverage ws (some period) = true ↔ db.overages ws period ≠ [] := by
  simp [hasOverage, overages, List.filter_eq_nil_iff]

theorem overages_insert {h : db.orders.get row.id = none} :
    Db.overages { db with orders := db.orders.insert row h } ws period
      = db.overages ws period ++
        if row.workspaceID = ws ∧ row.metadata.overagePeriod = some period then [row] else [] := by
  rw [overages, overages, Keyed.insert, List.filter_append]
  simp [List.filter_cons]

end Db

/-- What is inserted, if anything is. -/
structure Op.InsertsOverage (w : World) (o : Order) (db : Db) (row : OrderRow) (db' : Db) : Prop where
  id : row.id = w.newID db.orders.rows.length
  workspaceID : row.workspaceID = o.workspaceID
  amountCents : row.amountCents = o.amountCents
  metadata : row.metadata = o.metadata
  first : db.hasOverage o.workspaceID o.metadata.overagePeriod = false
  inserted : ∃ h : db.orders.get row.id = none, db' = { db with orders := db.orders.insert row h }

theorem insertOverageOrder_cases : ((Op.insertOverageOrder o).exec w db).2 = db ∨
    ∃ row, Op.InsertsOverage w o db row ((Op.insertOverageOrder o).exec w db).2 := by
  simp only [Op.exec]
  cases hws : db.workspace o.workspaceID with
  | none => exact .inl rfl
  | some ws =>
    dsimp only
    split
    · exact .inl rfl
    rename_i harbiter
    unfold Db.insertOrder
    cases hcheck : db.checkOrder (newOrder w db o ws.createdBy ws.planCode o.metadata) with
    | some err => exact .inl rfl
    | none =>
      dsimp only
      by_cases hid : db.orders.get (newOrder w db o ws.createdBy ws.planCode o.metadata).id = none
      · rw [dif_pos hid]
        refine .inr ⟨_, rfl, rfl, rfl, rfl, ?_, hid, rfl⟩
        have hamount : (newOrder w db o ws.createdBy ws.planCode o.metadata).checkAmount = none := by
          by_contra hsome
          rw [Db.checkOrder, if_pos (Option.isSome_iff_ne_none.2 hsome)] at hcheck
          exact hsome hcheck
        exact Bool.eq_false_iff.2 fun hover => harbiter ⟨hamount, hover⟩
      · rw [dif_neg hid]
        exact .inl rfl

/-- An overage order is inserted where none is there. -/
theorem bills_insertOverageOrder (hperiod : o.metadata.overagePeriod = some period)
    (hQ : o.workspaceID = ws → Q o.amountCents) :
    db.Bills ws period Q ((Op.insertOverageOrder o).exec w db).2 := by
  rcases @insertOverageOrder_cases w db o with hsame | ⟨row, hrow⟩
  · rw [hsame]
    exact .refl db
  obtain ⟨hid, hinserted⟩ := hrow.inserted
  rw [hinserted]
  refine ⟨rfl, rfl, ?_⟩
  rw [Db.overages_insert, hrow.workspaceID, hrow.metadata]
  by_cases hws : o.workspaceID = ws
  · subst hws
    have hnone : db.overages o.workspaceID period = [] := by
      by_contra hne
      have hfirst := hrow.first
      rw [hperiod, Db.hasOverage_iff.2 hne] at hfirst
      cases hfirst
    refine .inr ⟨hnone, row, ?_, hrow.amountCents ▸ hQ rfl⟩
    rw [hnone, if_pos ⟨rfl, hperiod⟩]
    rfl
  · rw [if_neg fun h => hws h.1, List.append_nil]
    exact .inl rfl

theorem fresh_insertOverageOrder (hinj : Function.Injective w.newID) (h : db.Fresh w) :
    ((Op.insertOverageOrder o).exec w db).2.Fresh w := by
  rcases @insertOverageOrder_cases w db o with hsame | ⟨row, hrow⟩
  · rwa [hsame]
  obtain ⟨hid, hinserted⟩ := hrow.inserted
  rw [hinserted]
  intro n hn
  have hlen : (db.orders.insert row hid).rows.length = db.orders.rows.length + 1 := List.length_append
  have hlt : db.orders.rows.length < n := by
    have := hlen ▸ hn
    omega
  have hne : row.id ≠ w.newID n := by
    rw [hrow.id]
    intro heq
    exact hlt.ne (hinj heq)
  show (db.orders.insert row hid).get (w.newID n) = none
  rw [Keyed.get_insert, if_neg hne]
  exact h n hlt.le

/-- Nothing prevents the first order of the workspace and the period. -/
theorem overages_insertOverageOrder {ws' : Workspace} (hws : db.workspace o.workspaceID = some ws')
    (hplan : (db.plan ws'.planCode).isSome) (hfresh : db.Fresh w) (hpos : 0 ≤ o.amountCents)
    (hfits : o.amountCents < 2 ^ 31) (hperiod : o.metadata.overagePeriod = some period) :
    ((Op.insertOverageOrder o).exec w db).2.overages o.workspaceID period ≠ [] := by
  have hamount : (newOrder w db o ws'.createdBy ws'.planCode o.metadata).checkAmount = none := by
    have hneg : ¬ o.amountCents < 0 := by omega
    have hlarge : ¬ 2 ^ 31 ≤ o.amountCents := by omega
    exact (if_neg hneg).trans (if_neg hlarge)
  have hcheck : db.checkOrder (newOrder w db o ws'.createdBy ws'.planCode o.metadata) = none := by
    have hws' : ¬ (db.workspace (newOrder w db o ws'.createdBy ws'.planCode o.metadata).workspaceID).isNone := by
      simp [newOrder, hws]
    have hcode : ¬ (db.plan (newOrder w db o ws'.createdBy ws'.planCode o.metadata).planCode).isNone := by
      simp [newOrder, Option.isSome_iff_ne_none.1 hplan]
    rw [Db.checkOrder, hamount, if_neg (by simp), if_neg hws', if_neg hcode]
  simp only [Op.exec, hws, hamount, true_and]
  split
  · rename_i hover
    rw [hperiod] at hover
    exact Db.hasOverage_iff.1 hover
  · have hid : db.orders.get (newOrder w db o ws'.createdBy ws'.planCode o.metadata).id = none :=
      hfresh _ le_rfl
    simp only [Db.insertOrder, hcheck, dif_pos hid]
    rw [Db.overages_insert, if_pos ⟨rfl, hperiod⟩]
    simp

end

/-! ## Rounds -/

def Op.IsUsage : {β : Type} → Op β → Prop
  | _, .usage .. => True
  | _, _ => False

/-- Whether the usage is read or not is up to the world. -/
def exceptUsage {β : Type} (o : Op β) (_ : Db) : Prop := ¬ o.IsUsage

/-- The usage of the dimension can be read. -/
def World.Reads (w : World) (ws period : String) (m : MeteredDim) : Bool :=
  match w.usage ws m.dim period with
  | .ok _ => true
  | .error _ => false

/-- The items of the dimensions whose usage can be read. -/
def World.readItems (w : World) (ws period : String) (dims : List MeteredDim) : List OverageItem :=
  dims.filterMap fun m => match w.usage ws m.dim period with
    | .ok used => some ⟨m.dim, used, m.included, m.unitCents⟩
    | .error _ => none

/-- The usage of a workspace is answered as it is, or cannot be read. -/
def World.Knows (w : World) (period ws : String) (used : String → Int) : Prop :=
  ∀ dim, w.usage ws dim period = .ok (used dim) ∨ ∃ msg, w.usage ws dim period = .error msg

/-- The amount of the order that is made of what can be read. -/
def World.amount (w : World) (period : String) (c : MeteredWorkspace) : Int :=
  overageAmount (overageItems (w.readItems c.workspaceID period (meteredDims c.limits)))

section

variable {w : World} {cfg : Config} {now : Time} {db s s' : Db} {ws period : String} {Q : Int → Prop}
  {used : String → Int} {dims : List MeteredDim} {items : List OverageItem}
  {may : {β : Type} → Op β → Db → Prop} {c : MeteredWorkspace} {cs : List MeteredWorkspace}

theorem World.Knows.readItems (h : w.Knows period ws used) (dims : List MeteredDim) :
    w.readItems ws period dims = itemsOf used (dims.filter (w.Reads ws period)) := by
  induction dims with
  | nil => rfl
  | cons m dims ih =>
    rcases h m.dim with hok | ⟨msg, herr⟩
    · have hreads : w.Reads ws period m = true := by simp only [World.Reads, hok]
      rw [List.filter_cons_of_pos hreads, itemsOf, List.map_cons, World.readItems, List.filterMap_cons, hok]
      exact congrArg _ ih
    · have hreads : ¬ w.Reads ws period m = true := by simp [World.Reads, herr]
      rw [List.filter_cons_of_neg hreads, World.readItems, List.filterMap_cons, herr]
      exact ih

theorem World.Knows.amount (h : w.Knows period c.workspaceID used) (hfits : Fits used (meteredDims c.limits)) :
    w.amount period c = (((meteredDims c.limits).filter (w.Reads c.workspaceID period)).map fun m =>
      m.overage (used m.dim)).sum := by
  rw [World.amount, h.readItems]
  have hpos : ∀ m ∈ meteredDims c.limits, 0 < m.unitCents := fun m hm => meteredDims_pos hm
  exact overageAmount_eq (fun m hm => hpos m (List.mem_of_mem_filter hm))
    (hfits.sublist hpos List.filter_sublist)

theorem path_readUsage {m : Svc (List OverageItem)}
    (h : Path (Op.Does w exceptUsage) (readUsage ws period dims) s m s') :
    s' = s ∧ ∀ items, m = ret items → items = w.readItems ws period dims := by
  induction dims generalizing s m s' with
  | nil =>
    obtain ⟨rfl, rfl⟩ := h.ret_eq
    exact ⟨rfl, fun items hitems => (Script.ret.inj hitems).symm⟩
  | cons d dims ih =>
    rcases h.call_cases with ⟨rfl, rfl⟩ | ⟨r, s₁, husage, hrest⟩
    · exact ⟨rfl, fun items hitems => by cases hitems⟩
    rcases husage with hexec | ⟨⟨hmay, -⟩, -⟩
    case inr => exact absurd trivial hmay
    obtain ⟨rfl, rfl⟩ := Prod.mk.inj hexec
    rw [World.readItems, List.filterMap_cons]
    cases hread : w.usage ws d.dim period with
    | error msg =>
      rw [hread] at hrest
      exact ih hrest
    | ok u =>
      rw [hread] at hrest
      change Path _ ((readUsage ws period dims).bind _) s _ s' at hrest
      rcases hrest.bind_cases with ⟨m', rfl, hm⟩ | ⟨items, s₁, hitems, hend⟩
      · refine ⟨(ih hm).1, fun items hitems => ?_⟩
        cases m' with
        | call o k => cases hitems
        | ret its =>
          rw [← Script.ret.inj hitems, (ih hm).2 its rfl]
          rfl
      · obtain ⟨rfl, hread'⟩ := ih hitems
        obtain ⟨rfl, rfl⟩ := hend.ret_eq
        refine ⟨rfl, fun items' hitems' => ?_⟩
        rw [← Script.ret.inj hitems', hread' items rfl]
        rfl

def Op.Reads {β : Type} (o : Op β) : Prop := ∀ w db, (o.exec w db).2 = db

theorem path_reads {α : Type} {m m' : Svc α} (hm : m.Calls Op.Reads) (h : Path (Op.Does w may) m s m' s') :
    s' = s := by
  refine h.relates (R := fun s s' => s' = s) (fun _ => rfl) (fun _ _ _ h h' => h'.trans h)
    (fun o s r s' ho hdoes => ?_) hm
  rcases hdoes with hexec | ⟨-, rfl⟩
  · exact (Prod.ext_iff.1 hexec).2.symm.trans (ho w s)
  · rfl

theorem path_overageCurrency {m : Svc String} (h : Path (Op.Does w may) (overageCurrency cfg ws) s m s') :
    s' = s := by
  have hreads : (overageCurrency cfg ws).Calls Op.Reads := by
    refine .seq (fun _ _ => rfl) fun r => ?_
    cases r with
    | error err => trivial
    | ok plan => exact .seq (fun _ _ => rfl) fun r => by rcases r with err | _ | p <;> trivial
  exact path_reads hreads h

/-- One order is created, of the amount of the items, if any is. -/
theorem path_createOverageOrder {m : Svc (Except Err (Option Order))} {ws' : String}
    (hQ : ws' = ws → Q (overageAmount (overageItems items)))
    (h : Path (Op.Does w may) (createOverageOrder cfg ws' period items) s m s') : s.Bills ws period Q s' := by
  unfold createOverageOrder at h
  dsimp only at h
  split at h
  · rw [h.ret_eq.2]
    exact .refl _
  rcases h.bind_cases with ⟨m', -, hm⟩ | ⟨currency, s₁, hm, hins⟩
  · rw [path_overageCurrency hm]
    exact .refl _
  cases path_overageCurrency hm
  rcases hins.call_cases with ⟨-, rfl⟩ | ⟨r, s₂, hdoes, hend⟩
  · exact .refl _
  rw [hend.ret_eq.2]
  rcases hdoes with hexec | ⟨-, rfl⟩
  · have hs₂ : _ = s₂ := congrArg Prod.snd hexec
    rw [← hs₂]
    exact bills_insertOverageOrder rfl hQ
  · exact .refl _

theorem path_meterWorkspaces {m : Svc (List Order)} (hperiod : previousMonthPeriod now = period)
    (hQ : ∀ c ∈ cs, c.workspaceID = ws → Q (w.amount period c))
    (h : Path (Op.Does w exceptUsage) (meterWorkspaces cfg now cs) s m s') : s.Bills ws period Q s' := by
  induction cs generalizing s m s' with
  | nil =>
    rw [h.ret_eq.2]
    exact .refl _
  | cons c cs ih =>
    have hrest : ∀ {m : Svc (List Order)} {s s' : Db}, Path (Op.Does w exceptUsage) (meterWorkspaces cfg now cs) s m s' →
        s.Bills ws period Q s' := ih fun c hc => hQ c (List.mem_cons_of_mem _ hc)
    unfold meterWorkspaces at h
    split at h
    case isFalse => exact hrest h
    rw [hperiod] at h
    rcases h.bind_cases with ⟨m', -, hm⟩ | ⟨items, s₁, hm, h⟩
    · rw [(path_readUsage hm).1]
      exact .refl _
    obtain ⟨rfl, hitems⟩ := path_readUsage hm
    cases hitems items rfl
    have hcreate : ∀ {m : Svc (Except Err (Option Order))} {s'' : Db},
        Path (Op.Does w exceptUsage) (createOverageOrder cfg c.workspaceID period _) s₁ m s'' →
          s₁.Bills ws period Q s'' := path_createOverageOrder (hQ c List.mem_cons_self)
    rcases h.bind_cases with ⟨m', -, hm⟩ | ⟨r, s₂, hm, h⟩
    · exact hcreate hm
    refine (hcreate hm).trans ?_
    rcases r with err | _ | order
    · exact hrest h
    · exact hrest h
    · rcases h.bind_cases with ⟨m', -, hm⟩ | ⟨orders, s₃, hm, hend⟩
      · exact hrest hm
      · rw [hend.ret_eq.2]
        exact hrest hm

/-! ### A round without failures -/

theorem run_readUsage : (readUsage ws period dims).run (Op.exec w) s = (w.readItems ws period dims, s) := by
  have hpath : Path (Op.Does w exceptUsage) (readUsage ws period dims) s _ _ :=
    run_path (fun o s => Faulty.of_exec o s) _ _
  obtain ⟨hs, hitems⟩ := path_readUsage hpath
  exact Prod.ext (hitems _ rfl) hs

theorem run_createOverageOrder : ∃ o : Order, o.workspaceID = ws ∧
    o.amountCents = overageAmount (overageItems items) ∧ o.metadata.overagePeriod = some period ∧
    ((createOverageOrder cfg ws period items).run (Op.exec w) s).2
      = if overageAmount (overageItems items) ≤ 0 then s else ((Op.insertOverageOrder o).exec w s).2 := by
  have hcurrency : ((overageCurrency cfg ws).run (Op.exec w) s).2 = s :=
    @path_overageCurrency w cfg s _ ws anyFails _ (run_path (fun o s => Faulty.of_exec o s) _ _)
  let o : Order := {
    workspaceID := ws
    interval := .oneTime
    amountCents := overageAmount (overageItems items)
    currency := ((overageCurrency cfg ws).run (Op.exec w) s).1
    channel := channelManual
    status := .pending
    metadata := { overagePeriod := some period, items := overageItems items } }
  refine ⟨o, rfl, rfl, rfl, ?_⟩
  unfold createOverageOrder
  dsimp only
  split
  · rfl
  · rw [bind_eq, run_bind, hcurrency]
    rfl

/-- The state after the first candidate, if it is live. -/
theorem run_meterWorkspaces (hperiod : previousMonthPeriod now = period) (hlive : ∃ t ∈ c.planExpiresAt, now < t) :
    ((meterWorkspaces cfg now (c :: cs)).run (Op.exec w) s).2
      = ((meterWorkspaces cfg now cs).run (Op.exec w) ((createOverageOrder cfg c.workspaceID period
          (w.readItems c.workspaceID period (meteredDims c.limits))).run (Op.exec w) s).2).2 := by
  rw [meterWorkspaces, if_pos hlive, hperiod, bind_eq, run_bind, run_readUsage, bind_eq, run_bind]
  dsimp only
  rcases ((createOverageOrder cfg c.workspaceID period (w.readItems c.workspaceID period
    (meteredDims c.limits))).run (Op.exec w) s).1 with err | _ | order
  · rfl
  · rfl
  · dsimp only
    rw [bind_eq, run_bind]
    rfl

theorem Db.Bills.overages_ne_nil (h : s.Bills ws period Q s') (hs : s.overages ws period ≠ []) :
    s'.overages ws period ≠ [] := by
  rcases h.overages with hsame | ⟨hnone, -⟩
  · rwa [hsame]
  · exact absurd hnone hs

/-- A live candidate with an overage has its order after the round. -/
theorem overages_meterWorkspaces {row : Workspace} (hperiod : previousMonthPeriod now = period) (hc : c ∈ cs)
    (hlive : ∃ t ∈ c.planExpiresAt, now < t) (hws : s.workspace c.workspaceID = some row)
    (hplan : (s.plan row.planCode).isSome) (hinj : Function.Injective w.newID) (hfresh : s.Fresh w)
    (hpos : 0 < w.amount period c) (hfits : w.amount period c < 2 ^ 31) :
    ((meterWorkspaces cfg now cs).run (Op.exec w) s).2.overages c.workspaceID period ≠ [] := by
  induction cs generalizing s with
  | nil => cases hc
  | cons c' cs ih =>
    have hpath : ∀ s, Path (Op.Does w exceptUsage) (meterWorkspaces cfg now cs) s _ _ :=
      fun s => run_path (fun o s => Faulty.of_exec o s) _ s
    by_cases hlive' : ∃ t ∈ c'.planExpiresAt, now < t
    · rw [run_meterWorkspaces hperiod hlive']
      obtain ⟨o, hows, hamount, hoperiod, hcreate⟩ := @run_createOverageOrder w cfg s c'.workspaceID period
        (w.readItems c'.workspaceID period (meteredDims c'.limits))
      rw [hcreate]
      rcases List.mem_cons.1 hc with rfl | hmem
      · have hamount' : o.amountCents = w.amount period c := hamount
        have hcreates : ¬ overageAmount (overageItems (w.readItems c.workspaceID period
          (meteredDims c.limits))) ≤ 0 := not_le.2 hpos
        rw [if_neg hcreates]
        refine (path_meterWorkspaces (Q := fun _ => True) hperiod (fun _ _ _ => trivial)
          (hpath _)).overages_ne_nil ?_
        rw [← hows] at hws ⊢
        exact overages_insertOverageOrder hws hplan hfresh (by omega) (by omega) hoperiod
      · split
        · exact ih hmem hws hplan hfresh
        · have hbills := @bills_insertOverageOrder w s c.workspaceID period (fun _ => True) o hoperiod
            fun _ => trivial
          refine ih hmem ?_ ?_ (fresh_insertOverageOrder hinj hfresh)
          · rwa [Db.workspace, hbills.workspaces]
          · rwa [Db.plan, hbills.plans]
    · rw [meterWorkspaces, if_neg hlive']
      rcases List.mem_cons.1 hc with rfl | hmem
      · exact absurd hlive hlive'
      · exact ih hmem hws hplan hfresh

/-! ### Sequences of rounds -/

/-- The workspaces that a round looks at, at most. -/
def batch (limit : Int) : Nat := (if limit ≤ 0 then 50 else limit).toNat

theorem path_meterDueOverages {limit : Int} {m : Svc (Except Err (List Order))}
    (hperiod : previousMonthPeriod now = period)
    (hQ : ∀ c ∈ s.meteredWorkspaces.take (batch limit), c.workspaceID = ws → Q (w.amount period c))
    (h : Path (Op.Does w exceptUsage) (meterDueOverages cfg now limit) s m s') : s.Bills ws period Q s' := by
  rcases h.call_cases with ⟨-, rfl⟩ | ⟨r, s₁, hlist, hrest⟩
  · exact .refl _
  rcases hlist with hexec | ⟨⟨-, msg, rfl⟩, rfl⟩
  case inr =>
    rw [hrest.ret_eq.2]
    exact .refl _
  obtain ⟨rfl, rfl⟩ := Prod.mk.inj hexec
  have hmeter : ∀ {m : Svc (List Order)} {s' : Db}, Path (Op.Does w exceptUsage)
      (meterWorkspaces cfg now (s.meteredWorkspaces.take (batch limit))) s m s' → s.Bills ws period Q s' :=
    path_meterWorkspaces hperiod hQ
  rcases Path.bind_cases (m := meterWorkspaces cfg now (s.meteredWorkspaces.take (batch limit)))
    hrest with ⟨m', -, hm⟩ | ⟨orders, s₂, hm, hend⟩
  · exact hmeter hm
  · rw [hend.ret_eq.2]
    exact hmeter hm

theorem run_meterDueOverages {limit : Int} : ((meterDueOverages cfg now limit).run (Op.exec w) s).2
    = ((meterWorkspaces cfg now (s.meteredWorkspaces.take (batch limit))).run (Op.exec w) s).2 := by
  rw [meterDueOverages, bind_eq, op_bind, run_call]
  dsimp only [Op.exec, orReturn]
  rw [bind_eq, run_bind]
  rfl

/-- A candidate is read off the row of its workspace. -/
theorem Db.mem_meteredWorkspaces (h : c ∈ db.meteredWorkspaces) : ∃ row p,
    db.workspace c.workspaceID = some row ∧ db.plan row.planCode = some p ∧
      c = ⟨row.id, row.planCode, p.limits, row.planExpiresAt⟩ := by
  obtain ⟨row, hrow, hc⟩ := List.mem_filterMap.1 h
  rw [List.mem_insertionSort] at hrow
  split at hc
  · rename_i p hp
    split at hc
    · cases hc
      exact ⟨row, p, Keyed.get_of_mem hrow, hp, rfl⟩
    · cases hc
  · cases hc

theorem Db.meteredWorkspaces_inj {c' : MeteredWorkspace} (hc : c ∈ db.meteredWorkspaces)
    (hc' : c' ∈ db.meteredWorkspaces) (hws : c'.workspaceID = c.workspaceID) : c' = c := by
  obtain ⟨row, p, hrow, hp, rfl⟩ := Db.mem_meteredWorkspaces hc
  obtain ⟨row', p', hrow', hp', rfl⟩ := Db.mem_meteredWorkspaces hc'
  rw [hws, hrow] at hrow'
  cases hrow'
  cases hp.symm.trans hp'
  rfl

/-- A round of metering. -/
structure MeterRound where
  world : World
  now : Time
  before : Db
  after : Db

/-- The round is one of the month after the period; its calls may fail, and the process
may stop anywhere. -/
structure MeterRound.Goes (cfg : Config) (limit : Int) (period : String) (r : MeterRound) : Prop where
  period : previousMonthPeriod r.now = period
  path : ∃ m, Path (Op.Does r.world exceptUsage) (meterDueOverages cfg r.now limit) r.before m r.after

/-- Rounds one after the other, the latest first. -/
inductive Rounds (cfg : Config) (limit : Int) (period : String) (db₀ : Db) : List MeterRound → Db → Prop
  | start : Rounds cfg limit period db₀ [] db₀
  | next {rs : List MeterRound} (r : MeterRound) (h : Rounds cfg limit period db₀ rs r.before)
      (hr : r.Goes cfg limit period) : Rounds cfg limit period db₀ (r :: rs) r.after

/-- The round creates the order, of the amount of what it can read. -/
structure MeterRound.Creates (period : String) (c : MeteredWorkspace) (o : OrderRow) (r : MeterRound) : Prop where
  before : r.before.overages c.workspaceID period = []
  after : r.after.overages c.workspaceID period = [o]
  amount : o.amountCents = r.world.amount period c

theorem Rounds.created {limit : Int} {db₀ : Db} {rs : List MeterRound} (h : Rounds cfg limit period db₀ rs db)
    (hc : c ∈ db₀.meteredWorkspaces) (hnone : db₀.overages c.workspaceID period = []) :
    db.workspaces = db₀.workspaces ∧ db.plans = db₀.plans ∧ (db.overages c.workspaceID period = [] ∨
      ∃ o, db.overages c.workspaceID period = [o] ∧ ∃ r ∈ rs, r.Creates period c o) := by
  induction h with
  | start => exact ⟨rfl, rfl, .inl hnone⟩
  | next r _ hr ih =>
    obtain ⟨hws, hplans, hbefore⟩ := ih
    obtain ⟨m, hpath⟩ := hr.path
    have hlisted : r.before.meteredWorkspaces = db₀.meteredWorkspaces := by
      unfold Db.meteredWorkspaces Db.plan
      rw [hws, hplans]
    have hbills : r.before.Bills c.workspaceID period (· = r.world.amount period c) r.after := by
      refine path_meterDueOverages hr.period (fun c' hc' hid => ?_) hpath
      rw [Db.meteredWorkspaces_inj hc (hlisted ▸ List.mem_of_mem_take hc') hid]
    refine ⟨hbills.workspaces.trans hws, hbills.plans.trans hplans, ?_⟩
    rcases hbills.overages with hsame | ⟨hnone', o, hone, hamount⟩
    · rw [hsame]
      rcases hbefore with hnone' | ⟨o, hone, r', hr', hcreates⟩
      · exact .inl hnone'
      · exact .inr ⟨o, hone, r', List.mem_cons_of_mem _ hr', hcreates⟩
    · exact .inr ⟨o, hone, r, List.mem_cons_self, hnone', hone, hamount⟩

/-- Rounds of metering for one month, the last of which fails nowhere and reads the usage of
the workspace. The workspace is live, among those a round looks at, and has used more than
its plan includes. It has one overage order, whose amount is the sum over the dimensions
that the round that created it has read. -/
theorem metered_once {limit : Int} {db₀ : Db} {rs : List MeterRound} {r : MeterRound}
    (h : Rounds cfg limit period db₀ (r :: rs) db)
    (hlast : r.after = ((meterDueOverages cfg r.now limit).run (Op.exec r.world) r.before).2)
    (hc : c ∈ db₀.meteredWorkspaces.take (batch limit)) (hlive : ∃ t ∈ c.planExpiresAt, r.now < t)
    (hnone : db₀.overages c.workspaceID period = [])
    (hknows : ∀ r' ∈ r :: rs, r'.world.Knows period c.workspaceID used)
    (hreads : ∀ m ∈ meteredDims c.limits, r.world.Reads c.workspaceID period m)
    (hinj : Function.Injective r.world.newID) (hfresh : r.before.Fresh r.world)
    (hfits : Fits used (meteredDims c.limits))
    (hover : 0 < ((meteredDims c.limits).map fun m => m.overage (used m.dim)).sum) :
    ∃ o, db.overages c.workspaceID period = [o] ∧ ∃ r' ∈ r :: rs, r'.Creates period c o ∧
      o.amountCents = (((meteredDims c.limits).filter (r'.world.Reads c.workspaceID period)).map fun m =>
        m.overage (used m.dim)).sum := by
  have hmem := List.mem_of_mem_take hc
  have hends : db.overages c.workspaceID period ≠ [] := by
    cases h with
    | next r hrounds hr =>
      obtain ⟨hws, hplans, -⟩ := hrounds.created hmem hnone
      obtain ⟨row, p, hrow, hp, hcrow⟩ := Db.mem_meteredWorkspaces hmem
      have hlisted : r.before.meteredWorkspaces = db₀.meteredWorkspaces := by
        unfold Db.meteredWorkspaces Db.plan
        rw [hws, hplans]
      have hall : (meteredDims c.limits).filter (r.world.Reads c.workspaceID period) = meteredDims c.limits :=
        List.filter_eq_self.2 hreads
      have hamount := (hknows r List.mem_cons_self).amount hfits
      rw [hall] at hamount
      rw [hlast, run_meterDueOverages]
      have hrow' : r.before.workspace c.workspaceID = some row := by rwa [Db.workspace, hws]
      have hp' : (r.before.plan row.planCode).isSome := by
        rw [Db.plan, hplans]
        exact Option.isSome_iff_exists.2 ⟨p, hp⟩
      refine overages_meterWorkspaces hr.period (hlisted ▸ hc) hlive hrow' hp' hinj hfresh ?_ ?_
      · rwa [hamount]
      · rw [hamount]
        exact hfits.total
  obtain ⟨-, -, hnil | ⟨o, hone, r', hr', hcreates⟩⟩ := h.created hmem hnone
  · exact absurd hnil hends
  · exact ⟨o, hone, r', hr', hcreates, hcreates.amount.trans ((hknows r' hr').amount hfits)⟩

end

/-- A workspace that no round looks at gets no order. -/
theorem Rounds.unlisted {cfg : Config} {limit : Int} {ws period : String} {db₀ db : Db} {rs : List MeterRound}
    (h : Rounds cfg limit period db₀ rs db)
    (hws : ∀ c ∈ db₀.meteredWorkspaces.take (batch limit), c.workspaceID ≠ ws) :
    db₀.Bills ws period (fun _ => False) db := by
  induction h with
  | start => exact .refl db₀
  | next r _ hr ih =>
    obtain ⟨m, hpath⟩ := hr.path
    have hlisted : r.before.meteredWorkspaces = db₀.meteredWorkspaces := by
      unfold Db.meteredWorkspaces Db.plan
      rw [ih.workspaces, ih.plans]
    exact ih.trans (path_meterDueOverages hr.period (fun c hc heq => (hws c (hlisted ▸ hc) heq).elim) hpath)

/-! ### Months of the small database -/

def monthlyUsage (_ : String) : Int := 30

/-- A world in which the usage of one dimension cannot be read. -/
def partWorld : World := { smallWorld 6 with
  newID := fun n => String.ofList (List.replicate (n + 1) 'x')
  usage := fun _ dim _ => if dim = "mails" then .error "timeout" else .ok (monthlyUsage dim) }

def fullWorld : World := { partWorld with usage := fun _ dim _ => .ok (monthlyUsage dim) }

/-- A round in which no call fails but for the reads of usage. -/
def MeterRound.of (w : World) (limit : Int) (db : Db) : MeterRound :=
  ⟨w, 30, db, ((meterDueOverages smallConfig 30 limit).run (Op.exec w) db).2⟩

theorem previousMonthPeriod_30 : previousMonthPeriod 30 = "1969-12" := by decide +kernel

theorem MeterRound.goes_of {w : World} {limit : Int} {db : Db} :
    (MeterRound.of w limit db).Goes smallConfig limit "1969-12" :=
  ⟨previousMonthPeriod_30, _, run_path (fun o s => Faulty.of_exec o s) _ _⟩

/-- A round that looks at one workspace, with its dimensions given. -/
theorem MeterRound.after_one {w : World} {limit : Int} {db : Db} {c : MeteredWorkspace} {ms : List MeteredDim}
    (hdims : meteredDims c.limits = ms) (hlive : ∃ t ∈ c.planExpiresAt, 30 < t)
    (hlisted : db.meteredWorkspaces.take (batch limit) = [c]) : (MeterRound.of w limit db).after
      = ((createOverageOrder smallConfig c.workspaceID "1969-12" (w.readItems c.workspaceID "1969-12" ms)).run
          (Op.exec w) db).2 := by
  subst hdims
  rw [MeterRound.of, run_meterDueOverages, hlisted, run_meterWorkspaces previousMonthPeriod_30 hlive]
  rfl

theorem MeterRound.after_of {w : World} {limit : Int} {db : Db} : (MeterRound.of w limit db).after
    = ((meterDueOverages smallConfig (MeterRound.of w limit db).now limit).run (Op.exec (MeterRound.of w limit db).world)
        (MeterRound.of w limit db).before).2 := rfl

/-- Two rounds, one after the other. -/
theorem Rounds.both {w w' : World} {limit : Int} {db : Db} :
    Rounds smallConfig limit "1969-12" db [.of w' limit (MeterRound.of w limit db).after, .of w limit db]
      (MeterRound.of w' limit (MeterRound.of w limit db).after).after :=
  .next (.of w' limit (MeterRound.of w limit db).after) (.next (.of w limit db) .start MeterRound.goes_of) MeterRound.goes_of

def firstMetered : MeteredWorkspace := ⟨"w1", "pro", (proPlan 0).limits, some (addInterval 20 .monthly 0)⟩

theorem firstMetered_dims : meteredDims firstMetered.limits = [⟨"calls", 3, 10⟩, ⟨"mails", 2, 0⟩] := by decide +kernel

theorem firstMetered_live : ∃ t ∈ firstMetered.planExpiresAt, (30 : Time) < t :=
  ⟨addInterval 20 .monthly 0, rfl, by decide⟩

theorem subscribed_metered : subscribed.meteredWorkspaces.take (batch 10) = [firstMetered] := by decide

theorem firstMetered_sum : ((meteredDims firstMetered.limits).map fun m => m.overage (monthlyUsage m.dim)).sum = 120 := by
  rw [firstMetered_dims]
  decide

theorem subscribed_fresh : subscribed.Fresh fullWorld := by
  intro n _
  have hrows : subscribed.orders.rows.map OrderRow.id = ["o1"] := by decide
  refine Table.get_none.2 ?_
  rw [hrows, List.mem_singleton]
  intro heq
  have hchars := congrArg String.toList heq
  simp [fullWorld, partWorld, List.replicate_succ] at hchars

theorem metered_once_first : ∃ o, (MeterRound.of fullWorld 10 subscribed).after.overages "w1" "1969-12" = [o] ∧
    o.amountCents = 120 := by
  have hrounds : Rounds smallConfig 10 "1969-12" subscribed [.of fullWorld 10 subscribed] _ :=
    .next (.of fullWorld 10 subscribed) .start MeterRound.goes_of
  have hmetered : firstMetered ∈ subscribed.meteredWorkspaces.take (batch 10) := subscribed_metered ▸ List.mem_singleton_self _
  have hinj : Function.Injective fullWorld.newID := by
    intro n m heq
    have hlen := congrArg String.length heq
    simpa [fullWorld, partWorld] using hlen
  have hfits : Fits monthlyUsage (meteredDims firstMetered.limits) := by
    rw [firstMetered_dims]
    exact ⟨by decide, by decide⟩
  have hknows : ∀ r' ∈ [MeterRound.of fullWorld 10 subscribed],
      r'.world.Knows "1969-12" firstMetered.workspaceID monthlyUsage := by
    intro r' hr' dim
    rw [List.mem_singleton.1 hr']
    exact .inl rfl
  obtain ⟨o, hone, r', hr', -, hamount⟩ := metered_once hrounds MeterRound.after_of hmetered firstMetered_live
    (by decide) hknows (fun m _ => rfl) hinj subscribed_fresh hfits (firstMetered_sum ▸ by decide)
  refine ⟨o, hone, hamount.trans ?_⟩
  rw [List.mem_singleton.1 hr', firstMetered_dims]
  decide

/-- Two workspaces are subscribed. -/
def bothSubscribed : Db :=
  serveAll (smallWorld 5) [.buy "w2" .monthly "paypal" 21,
    .ofEvent { channel := "paypal", channelEventID := "e2", type := .checkoutCompleted, orderID := "o2",
               subscriptionRef := "s2", amountCents := 900, currency := "USD" } 22] subscribed

/-- What cannot be read in the round that creates the order is never billed, and a workspace
that comes after as many others as a round looks at is never billed either. An amount that the
column does not hold makes no order. -/
theorem metering_incomplete :
    (∃ r₁ r₂ : MeterRound, Rounds smallConfig 10 "1969-12" subscribed [r₂, r₁] r₂.after ∧
      r₂ = .of fullWorld 10 r₁.after ∧ (r₂.after.overages "w1" "1969-12").map OrderRow.amountCents = [60] ∧
      firstMetered ∈ subscribed.meteredWorkspaces ∧
      ((meteredDims firstMetered.limits).map fun m => m.overage (monthlyUsage m.dim)).sum = 120) ∧
    (∃ c ∈ bothSubscribed.meteredWorkspaces, c.workspaceID = "w2" ∧ (∃ t ∈ c.planExpiresAt, 30 < t) ∧
      ((meteredDims c.limits).map fun m => m.overage (monthlyUsage m.dim)).sum = 120 ∧
      ∀ rs db, Rounds smallConfig 1 "1969-12" bothSubscribed rs db → db.overages "w2" "1969-12" = []) ∧
    ((MeterRound.of { fullWorld with usage := fun _ _ _ => .ok (2 ^ 31) } 10 subscribed).after.overages
      "w1" "1969-12" = []) := by
  have hfirst (w : World) := MeterRound.after_one (w := w) firstMetered_dims firstMetered_live subscribed_metered
  have hlisted : (MeterRound.of partWorld 10 subscribed).after.meteredWorkspaces.take (batch 10) = [firstMetered] := by
    rw [hfirst]
    decide
  have hpart : ((MeterRound.of fullWorld 10 (MeterRound.of partWorld 10 subscribed).after).after.overages "w1" "1969-12").map
      OrderRow.amountCents = [60] := by
    rw [MeterRound.after_one firstMetered_dims firstMetered_live hlisted, hfirst]
    decide
  have hmem : firstMetered ∈ subscribed.meteredWorkspaces.take (batch 10) := subscribed_metered ▸ List.mem_singleton_self _
  have hlarge : (MeterRound.of { fullWorld with usage := fun _ _ _ => .ok (2 ^ 31) } 10 subscribed).after.overages
      "w1" "1969-12" = [] := by
    rw [hfirst]
    decide
  refine ⟨⟨_, _, Rounds.both, rfl, hpart, List.mem_of_mem_take hmem, firstMetered_sum⟩, ?_, hlarge⟩
  have hsecond : (⟨"w2", "pro", (proPlan 0).limits, some (addInterval 22 .monthly 0)⟩ : MeteredWorkspace)
      ∈ bothSubscribed.meteredWorkspaces := by decide
  refine ⟨_, hsecond, rfl, ⟨_, rfl, by decide⟩, firstMetered_sum, fun rs db h => ?_⟩
  have hbills := @Rounds.unlisted _ _ "w2" _ _ _ _ h (by decide)
  rcases hbills.overages with hsame | ⟨-, -, -, hfalse⟩
  · rw [hsame]
    decide
  · exact hfalse.elim

end Ploykit.Billing

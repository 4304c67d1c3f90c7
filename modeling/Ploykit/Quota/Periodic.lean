import Mathlib.Data.List.Dedup
import Ploykit.Quota.Bound

/-!
# Periodic grants

A refresh gives each template its row of the month, under the reference
`ref#month`. These references share the unique key with all other grants. Month
names have no `#`, so that two templates, or two months, never clash; but a grant
that has been given such a reference by its caller does.
-/

namespace Ploykit.Quota

open Lib

/-! ## References of issued rows -/

theorem hash_notMem_period (now : Time) : '#' ∉ (period now).toList := by
  have hdigits : ∀ width n, '#' ∉ (Calendar.padded width n).toList := by
    intro width n hmem
    exact absurd (Calendar.isDigit_of_mem_padded hmem) (by decide)
  have hsign : '#' ∉ (if (Calendar.date now).year < 0 then "-" else "").toList := by
    split <;> decide
  have hdash : '#' ∉ "-".toList := by decide
  simp only [period, String.toList_append, List.mem_append, hdigits, hsign, hdash, or_self,
    not_false_eq_true]

/-- What stands before and after the last `#` can be read off. -/
theorem append_hash_inj {a a' b b' : List Char} (hb : '#' ∉ b) (hb' : '#' ∉ b')
    (h : a ++ '#' :: b = a' ++ '#' :: b') : a = a' ∧ b = b' := by
  rcases List.append_eq_append_iff.1 h with ⟨c, rfl, hc⟩ | ⟨c, rfl, hc⟩
  · cases c with
    | nil => exact ⟨by simp, (List.cons.inj hc).2⟩
    | cons x c =>
      refine absurd ?_ hb
      rw [(List.cons.inj hc).2]
      simp
  · cases c with
    | nil => exact ⟨by simp, (List.cons.inj hc).2.symm⟩
    | cons x c =>
      refine absurd ?_ hb'
      rw [(List.cons.inj hc).2]
      simp

/-- The month's rows of two templates clash only if templates and months do. -/
theorem issue_key_inj {t t' : Grant} {m m' : String} (hm : '#' ∉ m.toList) (hm' : '#' ∉ m'.toList)
    (h : (t.issue m).key = (t'.issue m').key) : t.key = t'.key ∧ m = m' := by
  simp only [Grant.key, Grant.issue, Prod.mk.injEq] at h ⊢
  obtain ⟨hws, hkey, hreason, href⟩ := h
  have hlist := congrArg String.toList href
  simp only [String.toList_append, List.append_assoc] at hlist
  have hhash : "#".toList = ['#'] := by decide
  rw [hhash, List.singleton_append, List.singleton_append] at hlist
  obtain ⟨hid, hmonth⟩ := append_hash_inj hm hm' hlist
  exact ⟨⟨hws, hkey, hreason, String.toList_inj.1 hid⟩, String.toList_inj.1 hmonth⟩

/-! ## Runs of grants and refreshes -/

/-- A grant that is accepted, or a refresh. -/
def Call.IsGranting : Call → Prop
  | .grant _ _ _ ref amount _ => Strings.trimSpace ref ≠ "" ∧ 0 < amount ∧ amount < 2 ^ 31
  | .refreshPeriodicGrants _ => True
  | _ => False

/-- The row of a grant. -/
def Call.rows : Call → List Grant
  | .grant ws key reason ref amount now => [⟨ws, period now, key, amount, reason, ref, none⟩]
  | _ => []

/-- The month of a refresh. -/
def Call.months : Call → List String
  | .refreshPeriodicGrants now => [period now]
  | _ => []

/-- What the call makes of the grants. -/
def grantStep (gs : List Grant) : Call → List Grant
  | .grant ws key reason ref amount now =>
      let g : Grant := ⟨ws, period now, key, amount, reason, ref, none⟩
      if g.key ∈ gs.map Grant.key then gs else gs ++ [g]
  | .refreshPeriodicGrants now =>
      gs ++ issueAll (period now) (gs.map Grant.key) (templatesFor (period now) gs)
  | _ => gs

theorem program_run (c : Call) (db : Db) :
    (store.runSolo c.program db).2 = (store.runSolo c.exec.run db).2 := by
  simp [Store.runSolo, Call.program, Script.run_bind]

/-- What a call made on its own does to the grants. -/
theorem runSolo_grants {c : Call} (hc : c.IsGranting) (db : Db) :
    (store.runSolo c.program db).2.2.grants = grantStep db.grants c := by
  rw [program_run]
  cases c with
  | grant ws key reason ref amount now =>
    obtain ⟨href, hpos, hmax⟩ := hc
    set g : Grant := ⟨ws, period now, key, amount, reason, ref, none⟩ with hg
    have hcheck : checkGrant g = .ok () := by
      have hrange : -2 ^ 31 ≤ amount ∧ amount < 2 ^ 31 := ⟨by omega, hmax⟩
      simp only [checkGrant, hg, hrange, hpos, and_self, not_true_eq_false, if_false, true_or, if_true]
    have hstep : store.sp (Call.grant ws key reason ref amount now).exec none db fun _ _ db' =>
        db'.grants = grantStep db.grants (.grant ws key reason ref amount now) := by
      refine Store.sp_map (Store.sp_ite (fun hblank => absurd hblank href) fun _ => ?_)
      by_cases htaken : g.key ∈ db.grants.map Grant.key
      · have heval : eval (.insertGrant g) (fun _ => false) db = .ok (reads false) := by
          simp only [eval, hcheck, htaken, if_true]
          rfl
        refine Store.sp_query_auto heval ?_
        exact (if_pos htaken).symm
      · have heval : eval (.insertGrant g) (fun _ => false) db
            = .ok (writes true (.insertGrants [g])) := by
          simp only [eval, hcheck, htaken, if_false]
          rfl
        refine Store.sp_query_auto heval ?_
        exact (if_neg htaken).symm
    exact Store.sp_runSolo hstep
  | refreshPeriodicGrants now => rfl
  | _ => exact hc.elim

theorem runCalls_grants {cs : List Call} (hcs : ∀ c ∈ cs, c.IsGranting) (db : Db) :
    (runCalls db cs).grants = cs.foldl grantStep db.grants := by
  induction cs generalizing db with
  | nil => rfl
  | cons c cs ih =>
    have htail := ih (fun c' hc' => hcs c' (List.mem_cons_of_mem _ hc')) (store.runSolo c.program db).2.2
    rw [runSolo_grants (hcs c List.mem_cons_self)] at htail
    exact htail

/-! ## The rows that are due -/

/-- The rows that the templates are due in the months. -/
def dueRows (gs : List Grant) (months : List String) : List Grant :=
  months.dedup.flatMap fun m => (templatesFor m gs).map (Grant.issue m)

/-- No template's row of a refreshed month has a key that another grant has. -/
def NoClash (gs : List Grant) (cs : List Call) : Prop :=
  ∀ m ∈ cs.flatMap Call.months, ∀ t ∈ templatesFor m gs,
    (t.issue m).key ∉ (gs ++ cs.flatMap Call.rows).map Grant.key

instance (gs : List Grant) (cs : List Call) : Decidable (NoClash gs cs) :=
  inferInstanceAs (Decidable (∀ m ∈ _, ∀ t ∈ _, _))

theorem mem_dueRows {gs : List Grant} {months : List String} {g : Grant} :
    g ∈ dueRows gs months ↔ ∃ m ∈ months, ∃ t ∈ templatesFor m gs, t.issue m = g := by
  simp [dueRows]

theorem dueRows_append {gs : List Grant} {months : List String} (m : String) :
    (dueRows gs (months ++ [m])).Perm (dueRows gs months ++
      if m ∈ months then [] else (templatesFor m gs).map (Grant.issue m)) := by
  by_cases hm : m ∈ months
  · have hmonths : (months ++ [m]).dedup.Perm months.dedup := by
      refine (List.perm_ext_iff_of_nodup (List.nodup_dedup _) (List.nodup_dedup _)).2 fun a => ?_
      simp only [List.mem_dedup, List.mem_append, List.mem_singleton]
      exact ⟨fun h => h.elim id fun h => h ▸ hm, .inl⟩
    rw [if_pos hm, List.append_nil]
    exact hmonths.flatMap_right _
  · have hmonths : (months ++ [m]).dedup.Perm (months.dedup ++ [m]) := by
      refine (List.perm_ext_iff_of_nodup (List.nodup_dedup _) ?_).2 fun a => by simp
      exact (List.nodup_dedup _).append (List.nodup_singleton m) (by simpa using hm)
    rw [if_neg hm]
    refine (hmonths.flatMap_right _).trans ?_
    rw [List.flatMap_append, List.flatMap_singleton]
    exact .refl _

/-- Issued rows and plain grants are no templates. -/
theorem templatesFor_of_plain {m : String} {gs : List Grant} (h : ∀ g ∈ gs, g.periodCycle = none) :
    templatesFor m gs = [] := by
  refine List.filter_eq_nil_iff.2 fun g hg => ?_
  simp [h g hg]

theorem plain_rows {cs : List Call} : ∀ g ∈ cs.flatMap Call.rows, g.periodCycle = none := by
  intro g hg
  obtain ⟨c, -, hg⟩ := List.mem_flatMap.1 hg
  cases c with
  | grant ws key reason ref amount now => rw [List.mem_singleton.1 hg]
  | _ => cases hg

theorem plain_dueRows {gs : List Grant} {months : List String} :
    ∀ g ∈ dueRows gs months, g.periodCycle = none := by
  intro g hg
  obtain ⟨m, -, t, -, rfl⟩ := mem_dueRows.1 hg
  rfl

/-- What is inserted are the rows whose keys are not taken. -/
theorem issueAll_eq_filter {m : String} {ts : List Grant}
    {taken : List (String × String × String × String)}
    (hts : (ts.map fun t => (t.issue m).key).Nodup) :
    issueAll m taken ts = (ts.map (Grant.issue m)).filter fun g => g.key ∉ taken := by
  induction ts generalizing taken with
  | nil => rfl
  | cons t ts ih =>
    obtain ⟨hhead, htail⟩ := List.nodup_cons.1 hts
    unfold issueAll
    split
    · rename_i htaken
      rw [ih htail, List.map_cons, List.filter_cons_of_neg (by simpa using htaken)]
    · rename_i htaken
      rw [ih htail, List.map_cons, List.filter_cons_of_pos (by simpa using htaken)]
      congr 1
      refine List.filter_congr fun g hg => ?_
      obtain ⟨t', ht', rfl⟩ := List.mem_map.1 hg
      have hne : (t'.issue m).key ≠ (t.issue m).key := fun h =>
        hhead (List.mem_map.2 ⟨t', ht', h⟩)
      simp [hne]

theorem issue_keys_nodup {now : Time} {gs : List Grant} (h : (gs.map Grant.key).Nodup) :
    ((templatesFor (period now) gs).map fun t => (t.issue (period now)).key).Nodup := by
  have hgs : gs.Nodup := h.of_map _
  refine List.Nodup.map_on (fun t ht t' ht' hkey => ?_) (hgs.filter _)
  have hm := hash_notMem_period now
  exact List.inj_on_of_nodup_map h (List.mem_of_mem_filter ht) (List.mem_of_mem_filter ht')
    (issue_key_inj hm hm hkey).1

/-! ## Exactly once -/

theorem flatMap_months_period {cs : List Call} {m : String} (h : m ∈ cs.flatMap Call.months) :
    '#' ∉ m.toList := by
  obtain ⟨c, -, hm⟩ := List.mem_flatMap.1 h
  cases c with
  | refreshPeriodicGrants now =>
    rw [List.mem_singleton.1 hm]
    exact hash_notMem_period now
  | _ => cases hm

/-- Keys stay unique. -/
theorem foldl_grantStep_nodup {gs : List Grant} (cs : List Call) (h : (gs.map Grant.key).Nodup) :
    ((cs.foldl grantStep gs).map Grant.key).Nodup := by
  induction cs generalizing gs with
  | nil => exact h
  | cons c cs ih =>
    refine ih ?_
    cases c with
    | grant ws key reason ref amount now =>
      simp only [grantStep]
      split
      · exact h
      · rename_i hfree
        rw [List.map_append]
        exact h.append (List.nodup_singleton _) (by simpa using hfree)
    | refreshPeriodicGrants now =>
      obtain ⟨hnodup, hspec⟩ := issueAll_spec (period now) (templatesFor (period now) gs)
        (gs.map Grant.key)
      simp only [grantStep, List.map_append]
      refine h.append hnodup fun k hk hk' => ?_
      obtain ⟨g, hg, rfl⟩ := List.mem_map.1 hk'
      exact (hspec g hg).1 hk
    | _ => exact h

section step

variable {gs cur rows : List Grant} {months : List String} {now : Time}

/-- A refresh adds the month's rows, unless it has been made before. -/
theorem refresh_step (hkeys : (cur.map Grant.key).Nodup)
    (hcur : cur.Perm (gs ++ rows ++ dueRows gs months)) (hrows : ∀ g ∈ rows, g.periodCycle = none)
    (hmonths : ∀ m ∈ months, '#' ∉ m.toList)
    (hclash : ∀ t ∈ templatesFor (period now) gs,
      (t.issue (period now)).key ∉ (gs ++ rows).map Grant.key) :
    (cur ++ issueAll (period now) (cur.map Grant.key) (templatesFor (period now) cur)).Perm
      (gs ++ rows ++ dueRows gs (months ++ [period now])) := by
  set m := period now
  have htemplates : (templatesFor m cur).Perm (templatesFor m gs) := by
    have hfilter := hcur.filter fun t : Grant => t.periodCycle = some "monthly" ∧ t.period ≠ m
    rw [List.filter_append, List.filter_append] at hfilter
    have hplain : templatesFor m rows = [] := templatesFor_of_plain hrows
    have hdue : templatesFor m (dueRows gs months) = [] := templatesFor_of_plain plain_dueRows
    unfold templatesFor at hplain hdue ⊢
    rwa [hplain, hdue, List.append_nil, List.append_nil] at hfilter
  have htaken : ∀ t ∈ templatesFor m gs, (t.issue m).key ∈ cur.map Grant.key ↔ m ∈ months := by
    intro t ht
    constructor
    · intro hmem
      obtain ⟨g, hg, hkey⟩ := List.mem_map.1 hmem
      rcases List.mem_append.1 (hcur.mem_iff.1 hg) with hg | hg
      · exact absurd (List.mem_map.2 ⟨g, hg, hkey⟩) (hclash t ht)
      · obtain ⟨m', hm', t', -, rfl⟩ := mem_dueRows.1 hg
        have hmonth : m' = m := (issue_key_inj (hmonths m' hm') (hash_notMem_period now) hkey).2
        rwa [hmonth] at hm'
    · intro hm
      refine List.mem_map_of_mem (hcur.mem_iff.2 (List.mem_append_right _ ?_))
      exact mem_dueRows.2 ⟨m, hm, t, ht, rfl⟩
  have hissued : (issueAll m (cur.map Grant.key) (templatesFor m cur)).Perm
      (if m ∈ months then [] else (templatesFor m gs).map (Grant.issue m)) := by
    rw [issueAll_eq_filter (issue_keys_nodup hkeys)]
    refine ((htemplates.map _).filter _).trans ?_
    split
    · rename_i hm
      refine .of_eq (List.filter_eq_nil_iff.2 fun g hg => ?_)
      obtain ⟨t, ht, rfl⟩ := List.mem_map.1 hg
      simpa using (htaken t ht).2 hm
    · rename_i hm
      refine .of_eq (List.filter_eq_self.2 fun g hg => ?_)
      obtain ⟨t, ht, rfl⟩ := List.mem_map.1 hg
      simpa using fun hmem => hm ((htaken t ht).1 (List.mem_map.2 hmem))
  have hall := hcur.append hissued
  rw [List.append_assoc] at hall
  exact hall.trans ((dueRows_append m).symm.append_left _)

/-- A grant whose key is not taken is made. -/
theorem grant_step {g : Grant} (hcur : cur.Perm (gs ++ rows ++ dueRows gs months))
    (hfree : g.key ∉ cur.map Grant.key) :
    (if g.key ∈ cur.map Grant.key then cur else cur ++ [g]).Perm
      (gs ++ (rows ++ [g]) ++ dueRows gs months) := by
  rw [if_neg hfree]
  refine (hcur.append_right [g]).trans ?_
  rw [List.append_assoc, ← List.append_assoc gs rows [g], List.append_assoc (gs ++ rows)]
  exact List.perm_append_comm.append_left _

end step

/-- While nothing clashes, every template gets its row of every refreshed month,
once, and every grant is made. -/
theorem foldl_grantStep {gs : List Grant} {cs : List Call} (hcs : ∀ c ∈ cs, c.IsGranting)
    (hnodup : ((gs ++ cs.flatMap Call.rows).map Grant.key).Nodup) (hclash : NoClash gs cs) :
    (cs.foldl grantStep gs).Perm
      (gs ++ cs.flatMap Call.rows ++ dueRows gs (cs.flatMap Call.months)) := by
  induction cs using List.reverseRecOn with
  | nil => simp [dueRows]
  | append_singleton cs c ih =>
    have hmonths : (cs ++ [c]).flatMap Call.months = cs.flatMap Call.months ++ c.months := by
      rw [List.flatMap_append, List.flatMap_singleton]
    have hrows : (cs ++ [c]).flatMap Call.rows = cs.flatMap Call.rows ++ c.rows := by
      rw [List.flatMap_append, List.flatMap_singleton]
    unfold NoClash at hclash
    rw [hrows] at hnodup
    rw [hmonths, hrows] at hclash
    have hsub : (gs ++ cs.flatMap Call.rows).Sublist (gs ++ (cs.flatMap Call.rows ++ c.rows)) :=
      (List.sublist_append_left _ _).append_left gs
    have hold := (hsub.map Grant.key).subset
    have hgs : (gs.map Grant.key).Nodup :=
      hnodup.sublist ((List.sublist_append_left _ _).map _)
    have hkeys := foldl_grantStep_nodup cs hgs
    have hcur := ih (fun c' hc' => hcs c' (List.mem_append_left _ hc')) (hnodup.sublist (hsub.map _))
      fun m hm t ht hmem => hclash m (List.mem_append_left _ hm) t ht (hold hmem)
    rw [List.foldl_append, hmonths, hrows]
    generalize cs.foldl grantStep gs = cur at hcur hkeys ⊢
    have hc := hcs c (by simp)
    cases c with
    | grant ws key reason ref amount now =>
      simp only [Call.months, List.append_nil] at hclash ⊢
      refine grant_step hcur fun hmem => ?_
      obtain ⟨g, hg, hkey⟩ := List.mem_map.1 hmem
      rcases List.mem_append.1 (hcur.mem_iff.1 hg) with hg | hg
      · rw [← List.append_assoc, List.map_append] at hnodup
        exact (List.nodup_append'.1 hnodup).2.2 (List.mem_map.2 ⟨g, hg, hkey⟩) (by simp [Call.rows])
      · obtain ⟨m, hm, t, ht, rfl⟩ := mem_dueRows.1 hg
        refine hclash m hm t ht ?_
        rw [hkey]
        simp [Call.rows]
    | refreshPeriodicGrants now =>
      simp only [Call.rows, List.append_nil] at hclash ⊢
      refine refresh_step hkeys hcur plain_rows (fun m hm => flatMap_months_period hm) ?_
      exact hclash (period now) (by simp [Call.months])
    | _ => exact hc.elim

/-- After grants and refreshes in any order, the grants are those there were, those
made, and one row for each template and each month refreshed (other than the
template's own), if and only if no grant has been given the key of such a row. -/
theorem refresh_exact_iff {db₀ : Db} {cs : List Call} (hcs : ∀ c ∈ cs, c.IsGranting)
    (hnew : ((db₀.grants ++ cs.flatMap Call.rows).map Grant.key).Nodup) :
    (runCalls db₀ cs).grants.Perm (db₀.grants ++ cs.flatMap Call.rows
      ++ dueRows db₀.grants (cs.flatMap Call.months)) ↔ NoClash db₀.grants cs := by
  rw [runCalls_grants hcs]
  refine ⟨fun hperm m hm t ht hmem => ?_, foldl_grantStep hcs hnew⟩
  have hgs : (db₀.grants.map Grant.key).Nodup :=
    hnew.sublist ((List.sublist_append_left _ _).map _)
  have hkeys := ((hperm.map Grant.key).nodup_iff).1 (foldl_grantStep_nodup cs hgs)
  rw [List.map_append] at hkeys
  refine (List.nodup_append'.1 hkeys).2.2 hmem ?_
  exact List.mem_map_of_mem (mem_dueRows.2 ⟨m, hm, t, ht, rfl⟩)

/-! ## A clash -/

/-- Two grants of the month, next to a template. -/
def octoberGrants : List Call :=
  [.grantPeriodic "w" "tasks" "bonus" "b" 10 "monthly" 1791158400000000,
    .grant "w" "tasks" "bonus" "b#2026-11" 5 1791158400000000]

/-- A refresh in November. -/
def novemberRefresh : List Call := [.refreshPeriodicGrants 1793836800000000]

/-- An ordinary grant with the reference `b#2026-11` keeps the template `b` from
being issued in November: its 10 are never granted. -/
theorem refresh_suppressed_by_grant :
    ¬ (runCalls (runCalls freshDb octoberGrants) novemberRefresh).grants.Perm
      ((runCalls freshDb octoberGrants).grants ++ novemberRefresh.flatMap Call.rows
        ++ dueRows (runCalls freshDb octoberGrants).grants (novemberRefresh.flatMap Call.months)) ∧
    (runCalls freshDb octoberGrants).grants.length = 2 ∧
    (runCalls (runCalls freshDb octoberGrants) novemberRefresh).granted ⟨"w", "2026-11", "tasks"⟩ = 0 := by
  decide

/-- The same template, next to a grant with a reference of its own. -/
def octoberPlain : List Call :=
  [.grantPeriodic "w" "tasks" "bonus" "b" 10 "monthly" 1791158400000000,
    .grant "w" "tasks" "bonus" "extra" 5 1791158400000000]

theorem refresh_exact_iff_octoberPlain :
    (runCalls (runCalls freshDb octoberPlain) novemberRefresh).grants.Perm
      ((runCalls freshDb octoberPlain).grants ++ novemberRefresh.flatMap Call.rows
        ++ dueRows (runCalls freshDb octoberPlain).grants (novemberRefresh.flatMap Call.months)) ∧
    (runCalls (runCalls freshDb octoberPlain) novemberRefresh).granted ⟨"w", "2026-11", "tasks"⟩ = 10 := by
  have hcs : ∀ c ∈ novemberRefresh, c.IsGranting := by
    intro c hc
    rw [List.mem_singleton.1 hc]
    trivial
  exact ⟨(refresh_exact_iff hcs (by decide)).2 (by decide), by decide⟩

end Ploykit.Quota

import Ploykit.Lib.Greatest
import Ploykit.Pgmigrate.Migrator

/-!
# Up and Down

`Up` fills the gaps in the order of the versions, and `Down` takes the greatest versions away, which
its documentation calls the most recently applied ones. The two orders are the same exactly when no
migration was applied after a greater one.
-/

namespace Ploykit.Pgmigrate

open Lib Proc

variable {entries : List DirEntry} {hooks : String → Nat} {s : Scan} {db db' : Db} {mf : MigrationFile} {v : String} {rows : List String}

/-! ## What the calls return -/

theorem takeWhile_numbered (h : Numbered v) : v.toList.takeWhile (· ≠ '_') = v.toList := by
  refine List.takeWhile_eq_self_iff.2 fun c hc => decide_eq_true fun heq => ?_
  have hdigit := h.2 c hc
  rw [heq] at hdigit
  exact absurd hdigit (by decide)

theorem splitPart_numbered (h : Numbered v) : splitPart v = v := by rw [splitPart, takeWhile_numbered h, String.ofList_toList]

theorem normVersion_numbered (h : Numbered v) : normVersion v = v := by
  rw [normVersion, splitPart_numbered h, ite_self]

/-- A row of a version in the old form counts for it. -/
theorem normVersion_of_splitPart {r : String} (hv : v ≠ "") (h : splitPart r = v) : normVersion r = v := by
  rw [normVersion, if_pos, h]
  intro hnone
  rw [splitPart, hnone] at h
  exact hv h.symm

/-- The rows after the bookkeeping of a version. -/
def rowsAfter (rows : List String) (v : String) (isUp : Bool) : List String :=
  if isUp then rows ++ [v] else rows.filter fun r => splitPart r ≠ v

theorem bookkeep_rows {isUp : Bool} (h : db.bookkeep mf isUp = some db') : db'.rows = rowsAfter db.rows mf.version isUp := by
  unfold Db.bookkeep at h
  cases isUp with
  | true =>
    rw [if_pos rfl] at h
    split at h
    · cases h
    · exact (congrArg Db.rows (Option.some.inj h)).symm
  | false => exact (congrArg Db.rows (Option.some.inj h)).symm

/-- A migration that ran is recorded, or no longer recorded. -/
theorem execMigrationOn_returns (isUp : Bool) :
    Returns Step (execMigrationOn mf isUp) (fun _ db' => db'.rows = rowsAfter db.rows mf.version isUp) db := by
  unfold execMigrationOn
  refine returns_ite (fun _ => ?_) fun _ => ?_
  · refine returns_bind (returns_attempt fun n db₁ hbody => returns_bind (returns_attempt fun n db₂ hbook => ?_))
    have hrows : db₁.rows = db.rows := by
      rcases hbody with ⟨hfailed, _⟩ | rfl
      · cases hfailed
      · rfl
    have hbooked : db₂.rows = rowsAfter db₁.rows mf.version isUp := by
      rcases hbook with ⟨hfailed, _⟩ | ⟨hbooked, _⟩
      · cases hfailed
      · exact bookkeep_rows hbooked
    rw [hrows] at hbooked
    exact returns_ite (fun _ => returns_throw _) fun _ => returns_pure hbooked
  · refine returns_bind (returns_ask fun r db₁ hrun => ?_)
    cases r with
    | error e => exact returns_bind (returns_ask fun _ _ _ => returns_throw _)
    | ok n =>
      refine returns_pure ?_
      rcases hrun with ⟨hfailed, _⟩ | hbooked
      · cases hfailed
      · exact (bookkeep_rows hbooked :)

theorem runHooks_returns (v : String) (n : Nat) : Returns Step (runHooks v n) (fun _ db' => db' = db) db := by
  induction n with
  | zero => exact returns_pure rfl
  | succ i ih =>
    refine returns_bind (ih.mono fun _ db₁ h => ?_)
    subst h
    exact returns_attempt fun _ _ hstep => hstep

theorem withRunLock_returns {fn : Proc Op Err (List String)} {Q : List String → Db → Prop} (h : Returns Step fn Q db) :
    Returns Step (withRunLock fn) Q db := by
  have hdeferred : Returns Step (deferred fn .unlock) Q db := by
    refine returns_iff.2 ((Script.wp_bind fn.run _ _ db).2 (Script.wp_mono (fun r db₁ hr => ?_) (returns_iff.1 h)))
    rintro _ db₂ rfl a rfl
    exact hr a rfl
  refine returns_bind (returns_attempt fun _ db₁ h₁ => returns_bind (returns_attempt fun _ db₂ h₂ =>
    returns_bind (returns_attempt fun _ db₃ h₃ => ?_)))
  cases h₁
  cases h₂
  cases h₃
  exact hdeferred

theorem upLoop_returns {applied versions acc : List String} {n k : Nat} (hk : 0 < k) (hn : n ≤ k)
    (hups : ∀ v ∈ versions, (s.up? v).version = v) : Returns Step (upLoop hooks s applied k versions n acc)
      (fun l db' => ∃ new, new = (versions.filter (· ∉ applied)).take (k - n) ∧ l = acc ++ new ∧ db'.rows = db.rows ++ new) db := by
  induction versions generalizing n acc db with
  | nil => exact returns_pure ⟨[], by simp, by simp, by simp⟩
  | cons v versions ih =>
    have hrest : ∀ w ∈ versions, (s.up? w).version = w := fun w hw => hups w (List.mem_cons_of_mem v hw)
    unfold upLoop
    refine returns_ite (fun hin => ?_) fun hin => returns_ite (fun hlimit => returns_pure ?_) fun hlimit => ?_
    · rw [List.filter_cons_of_neg (by simpa using hin)]
      exact ih hn hrest
    · refine ⟨[], ?_, by simp, by simp⟩
      rw [show k - n = 0 by omega, List.take_zero]
    · have hlt : n < k := by omega
      refine returns_bind ((runHooks_returns v (hooks v)).mono fun _ db₁ h₁ => ?_)
      subst h₁
      refine returns_bind ((execMigrationOn_returns true).mono fun _ db₂ h₂ => (ih hlt hrest).mono ?_)
      rintro l db₃ ⟨new, hnew, hl, hrows⟩
      refine ⟨v :: new, ?_, by rw [hl, List.append_assoc, List.singleton_append], ?_⟩
      · rw [List.filter_cons_of_pos (by simpa using hin), show k - n = k - (n + 1) + 1 by omega, List.take_succ_cons, hnew]
      · have hadded : db₂.rows = db₁.rows ++ [v] := by
          rw [h₂, hups v List.mem_cons_self]
          rfl
        rw [hrows, hadded, List.append_assoc, List.singleton_append]

theorem downLoop_returns {versions acc : List String} {n k : Nat} (hn : n ≤ k) (hdowns : ∀ v mf, s.down? v = some mf → mf.version = v) :
    Returns Step (downLoop s false k versions n acc) (fun l db' => ∃ gone, gone = versions.take (k - n) ∧ l = acc ++ gone ∧
      db'.rows = db.rows.filter fun r => splitPart r ∉ gone) db := by
  induction versions generalizing n acc db with
  | nil => exact returns_pure ⟨[], by simp, by simp, by simp⟩
  | cons v versions ih =>
    unfold downLoop
    refine returns_ite (fun hlimit => returns_pure ?_) fun hlimit => ?_
    · refine ⟨[], ?_, by simp, by simp⟩
      rw [show k - n = 0 by have := hlimit.2; omega, List.take_zero]
    · have hlt : n < k := by
        by_contra hge
        exact hlimit ⟨Bool.false_ne_true, by omega⟩
      cases hdown : s.down? v with
      | none => exact returns_throw _
      | some down =>
        refine returns_bind ((execMigrationOn_returns false).mono fun _ db₁ h₁ => (ih hlt).mono ?_)
        rintro l db₂ ⟨gone, hgone, hl, hrows⟩
        refine ⟨v :: gone, ?_, by rw [hl, List.append_assoc, List.singleton_append], ?_⟩
        · rw [show k - n = k - (n + 1) + 1 by omega, List.take_succ_cons, hgone]
        · rw [hrows, h₁, hdowns v down hdown]
          show (db.rows.filter fun r => splitPart r ≠ v).filter _ = _
          rw [List.filter_filter]
          exact List.filter_congr fun r _ => by simp [Bool.and_comm]

theorem appliedOn_returns : Returns Step appliedOn (fun a db' => a = db.rows.map normVersion ∧ db' = db) db :=
  returns_bind (returns_attempt fun _ _ hstep => returns_pure ⟨congrArg _ (hstep.2 _ rfl), hstep.1⟩)

/-! ## What Up and Down return -/

theorem up?_version (hs : s.Ok) (hv : v ∈ s.versions) : (s.up? v).version = v := by
  obtain ⟨mf, hmf, hversion⟩ := (hs.mem_versions v).1 hv
  have hsome : (s.ups.find? (·.version = v)).isSome := List.find?_isSome.2 ⟨mf, hmf, by simpa using hversion⟩
  obtain ⟨found, hfound⟩ := Option.isSome_iff_exists.1 hsome
  rw [Scan.up?, hfound]
  simpa using List.find?_some hfound

theorem down?_version {mf : MigrationFile} (h : s.down? v = some mf) : mf.version = v := by
  simpa using List.find?_some h

/-- The versions of the directory that are applied, and those that are not. -/
def Scan.appliedOf (s : Scan) (rows : List String) : List String := s.versions.filter (· ∈ rows.map normVersion)

def Scan.pendingOf (s : Scan) (rows : List String) : List String := s.versions.filter (· ∉ rows.map normVersion)

theorem up_returns (hscan : scan entries = .ok s) {k : Nat} (hk : 0 < k) : Returns Step (up entries hooks k)
    (fun l db' => l = (s.pendingOf db.rows).take k ∧ db'.rows = db.rows ++ l) db := by
  refine withRunLock_returns (returns_bind (appliedOn_returns.mono ?_))
  rintro _ _ ⟨rfl, rfl⟩
  rw [hscan]
  refine (upLoop_returns hk (Nat.zero_le k) fun v => up?_version (scan_ok hscan)).mono ?_
  rintro l db' ⟨new, rfl, rfl, hrows⟩
  exact ⟨rfl, hrows⟩

theorem down_returns (hscan : scan entries = .ok s) {k : Nat} (hk : 0 < k) : Returns Step (down entries k)
    (fun l db' => l = (s.appliedOf db.rows).reverse.take k ∧ db'.rows = db.rows.filter fun r => splitPart r ∉ l) db := by
  have hpos : ¬ (k : Int) = 0 := by omega
  have hfull : decide ((k : Int) < 0) = false := decide_eq_false (by omega)
  unfold down
  rw [if_neg hpos]
  simp only [hfull]
  refine withRunLock_returns (returns_bind (appliedOn_returns.mono ?_))
  rintro _ _ ⟨rfl, rfl⟩
  rw [hscan]
  refine (downLoop_returns (Nat.zero_le k) fun v mf => down?_version).mono ?_
  rintro l db' ⟨gone, rfl, rfl, hrows⟩
  exact ⟨rfl, hrows⟩

/-! ## Undoing -/

theorem appliedOf_desc (hs : s.Ok) (rows : List String) : (s.appliedOf rows).reverse.Pairwise fun a b => rank b < rank a :=
  List.pairwise_reverse.2 (hs.sorted.sublist List.filter_sublist)

theorem mem_appliedOf : v ∈ s.appliedOf rows ↔ v ∈ s.versions ∧ v ∈ rows.map normVersion := by simp [Scan.appliedOf]

theorem mem_pendingOf : v ∈ s.pendingOf rows ↔ v ∈ s.versions ∧ v ∉ rows.map normVersion := by simp [Scan.pendingOf]

theorem numbered_of_mem (hs : s.Ok) (hv : v ∈ s.versions) : Numbered v := by
  obtain ⟨mf, hmf, rfl⟩ := (hs.mem_versions v).1 hv
  exact hs.ups.numbered mf hmf

/-- No migration of the directory is pending below one that is applied. -/
def Gapless (s : Scan) (rows : List String) : Prop := ∀ a ∈ s.appliedOf rows, ∀ p ∈ s.pendingOf rows, versionLess a p

/-- The first pending migration is below the others. -/
theorem gapless_iff (hs : s.Ok) {k : Nat} (hk : 0 < k) (hpending : (s.pendingOf rows).take k ≠ []) :
    Gapless s rows ↔ ∀ p ∈ (s.pendingOf rows).take k, ∀ a ∈ s.appliedOf rows, rank a < rank p := by
  have hsorted : (s.pendingOf rows).Pairwise fun a b => rank a < rank b := hs.sorted.sublist List.filter_sublist
  constructor
  · exact fun h p hp a ha => versionLess_iff.1 (h a ha p (List.mem_of_mem_take hp))
  · intro h a ha p hp
    refine versionLess_iff.2 ?_
    cases hlist : s.pendingOf rows with
    | nil =>
      rw [hlist] at hp
      cases hp
    | cons first rest =>
      rw [hlist] at hp hsorted h
      obtain ⟨m, rfl⟩ := Nat.exists_eq_succ_of_ne_zero hk.ne'
      have hfirst : rank a < rank first := h first (by simp) a ha
      rcases List.mem_cons.1 hp with rfl | hrest
      · exact hfirst
      · exact hfirst.trans ((List.pairwise_cons.1 hsorted).1 p hrest)

/-- After `Up` the migrations of the directory are those that were applied, and the new ones. -/
theorem appliedOf_perm (hs : s.Ok) (rows : List String) (k : Nat) :
    (((s.pendingOf rows).take k) ++ s.appliedOf rows).Perm (s.appliedOf (rows ++ (s.pendingOf rows).take k)).reverse := by
  have hnodup : s.versions.Nodup := hs.sorted.imp fun hab heq => absurd (heq ▸ hab) (lt_irrefl _)
  have hnew : ∀ v ∈ (s.pendingOf rows).take k, v ∈ s.versions ∧ v ∉ rows.map normVersion := fun v hv =>
    mem_pendingOf.1 (List.mem_of_mem_take hv)
  refine (List.perm_ext_iff_of_nodup ?_ ?_).2 fun v => ?_
  · refine List.Nodup.append ((hnodup.sublist List.filter_sublist).sublist (List.take_sublist _ _)) (hnodup.sublist List.filter_sublist) ?_
    exact fun v hv ha => (hnew v hv).2 (mem_appliedOf.1 ha).2
  · exact List.nodup_reverse.2 (hnodup.sublist List.filter_sublist)
  · rw [List.mem_append, List.mem_reverse, mem_appliedOf, mem_appliedOf, List.map_append, List.mem_append]
    have hnorm : v ∈ ((s.pendingOf rows).take k).map normVersion ∧ v ∈ s.versions ↔ v ∈ (s.pendingOf rows).take k := by
      constructor
      · rintro ⟨hv, _⟩
        obtain ⟨w, hw, rfl⟩ := List.mem_map.1 hv
        rwa [normVersion_numbered (numbered_of_mem hs (hnew w hw).1)]
      · exact fun hv => ⟨List.mem_map.2 ⟨v, hv, normVersion_numbered (numbered_of_mem hs (hnew v hv).1)⟩, (hnew v hv).1⟩
    tauto

/-- The rows are the same again exactly when `Down` takes away what `Up` has added. -/
theorem rows_restored_iff (hs : s.Ok) {k : Nat} {gone : List String}
    (hlength : gone.length ≤ ((s.pendingOf rows).take k).length) :
    (∀ v, v ∈ (rows ++ (s.pendingOf rows).take k).filter (fun r => splitPart r ∉ gone) ↔ v ∈ rows) ↔
      gone.Perm ((s.pendingOf rows).take k) := by
  have hnodup : s.versions.Nodup := hs.sorted.imp fun hab heq => absurd (heq ▸ hab) (lt_irrefl _)
  have hnew : ∀ v ∈ (s.pendingOf rows).take k, v ∈ s.versions ∧ v ∉ rows.map normVersion := fun v hv =>
    mem_pendingOf.1 (List.mem_of_mem_take hv)
  have hsplit : ∀ v ∈ (s.pendingOf rows).take k, splitPart v = v := fun v hv => splitPart_numbered (numbered_of_mem hs (hnew v hv).1)
  constructor
  · intro hsame
    have hsub : (s.pendingOf rows).take k ⊆ gone := by
      intro v hv
      by_contra hkept
      have hrow : v ∈ rows := (hsame v).1 (List.mem_filter.2 ⟨List.mem_append_right rows hv, by simpa [hsplit v hv] using hkept⟩)
      exact (hnew v hv).2 (List.mem_map.2 ⟨v, hrow, normVersion_numbered (numbered_of_mem hs (hnew v hv).1)⟩)
    exact perm_of_subset_of_length_le ((hnodup.sublist List.filter_sublist).sublist (List.take_sublist _ _)) hsub hlength
  · intro hperm v
    rw [List.mem_filter, List.mem_append]
    constructor
    · rintro ⟨hrow | hv, hkept⟩
      · exact hrow
      · rw [hsplit v hv] at hkept
        exact absurd (hperm.mem_iff.2 hv) (of_decide_eq_true hkept)
    · refine fun hrow => ⟨.inl hrow, decide_eq_true fun hin => ?_⟩
      have hpend := hnew _ (hperm.mem_iff.1 hin)
      have hnorm := normVersion_of_splitPart (numbered_of_mem hs hpend.1).1 (rfl : splitPart v = splitPart v)
      exact hpend.2 (List.mem_map.2 ⟨v, hrow, hnorm⟩)

theorem down_undoes_up (hscan : scan entries = .ok s) {k : Nat} (hk : 0 < k) {l l' : List String} {db₁ db₂ : Db}
    (hup : Script.Path Step (up entries hooks k).run db (.ret (.ok l)) db₁) (hlength : l.length = k)
    (hdown : Script.Path Step (down entries k).run db₁ (.ret (.ok l')) db₂) :
    (∀ v, v ∈ db₂.rows ↔ v ∈ db.rows) ↔ Gapless s db.rows := by
  have hs := scan_ok hscan
  obtain ⟨rfl, hrows₁⟩ := (up_returns hscan hk).path hup
  obtain ⟨rfl, hrows₂⟩ := (down_returns hscan hk).path hdown
  have hnonempty : (s.pendingOf db.rows).take k ≠ [] := fun h => by
    rw [h] at hlength
    exact absurd hlength hk.ne
  have hfirst : (s.pendingOf db.rows).take k = (((s.pendingOf db.rows).take k) ++ s.appliedOf db.rows).take k := by
    rw [List.take_left' hlength]
  have hrest : s.appliedOf db.rows = (((s.pendingOf db.rows).take k) ++ s.appliedOf db.rows).drop k := by
    rw [List.drop_left' hlength]
  have htake := take_perm_iff (k := k) (appliedOf_desc hs _) (appliedOf_perm hs db.rows k)
  rw [← hfirst, ← hrest] at htake
  rw [gapless_iff hs hk hnonempty, ← htake, hrows₂, hrows₁]
  refine rows_restored_iff hs ?_
  rw [hlength]
  exact List.length_take_le _ _

/-! ## The order of application -/

/-- The applied migrations of the directory, the one that was recorded last first. -/
def Scan.history (s : Scan) (rows : List String) : List String := ((rows.map normVersion).filter (· ∈ s.versions)).dedup.reverse

/-- The last ones that were recorded are above the others. -/
def LatestGreatest (s : Scan) (rows : List String) (k : Nat) : Prop :=
  ∀ v ∈ (s.history rows).take k, ∀ w ∈ (s.history rows).drop k, versionLess w v

theorem history_perm (hs : s.Ok) (rows : List String) : (s.history rows).Perm (s.appliedOf rows).reverse := by
  have hnodup : s.versions.Nodup := hs.sorted.imp fun hab heq => absurd (heq ▸ hab) (lt_irrefl _)
  refine (List.perm_ext_iff_of_nodup (List.nodup_reverse.2 (List.nodup_dedup _)) (List.nodup_reverse.2 (hnodup.sublist List.filter_sublist))).2
    fun v => ?_
  rw [List.mem_reverse, List.mem_reverse, List.mem_dedup, List.mem_filter, List.mem_filter, decide_eq_true_iff, decide_eq_true_iff, and_comm]

theorem down_takes_latest (hscan : scan entries = .ok s) {k : Nat} (hk : 0 < k) {l : List String}
    (hdown : Script.Path Step (down entries k).run db (.ret (.ok l)) db') :
    l.Perm ((s.history db.rows).take k) ↔ LatestGreatest s db.rows k := by
  have hs := scan_ok hscan
  obtain ⟨rfl, _⟩ := (down_returns hscan hk).path hdown
  rw [take_perm_iff (appliedOf_desc hs _) (history_perm hs _)]
  simp only [LatestGreatest, versionLess_iff]

/-! ## Failures -/

/-- What the table says when these scripts took effect since it said `rows`. -/
def inEffect (rows : List String) (effects : List (String × Bool)) : List String :=
  effects.foldl (fun rows p => rowsAfter rows p.1 p.2) rows

/-- The table says what took effect. -/
def Tells (db db' : Db) : Prop := ∃ new, db'.effects = db.effects ++ new ∧ db'.rows = inEffect db.rows new

theorem Tells.refl (db : Db) : Tells db db := ⟨[], (List.append_nil _).symm, rfl⟩

theorem Tells.trans {db₁ db₂ db₃ : Db} (h : Tells db₁ db₂) (h' : Tells db₂ db₃) : Tells db₁ db₃ := by
  obtain ⟨new, heffects, hrows⟩ := h
  obtain ⟨new', heffects', hrows'⟩ := h'
  refine ⟨new ++ new', by rw [heffects', heffects, List.append_assoc], ?_⟩
  rw [hrows', hrows, inEffect, inEffect, inEffect, List.foldl_append]

/-- A call that runs no script outside a transaction. -/
def Transactional : {β : Type} → Op β → Prop
  | _, .exec (.body ..) => False
  | _, .exec (.bookkeeping ..) => False
  | _, _ => True

theorem step_tells {β : Type} {o : Op β} {r : β} (ho : Transactional o) (h : Step o db r db') : Tells db db' := by
  cases o with
  | exec sql =>
    cases sql with
    | transaction mf isUp =>
      rcases h with ⟨_, rfl⟩ | hbooked
      · exact Tells.refl _
      · refine ⟨[(mf.version, isUp)], ?_, (bookkeep_rows hbooked :)⟩
        unfold Db.bookkeep at hbooked
        cases isUp with
        | true =>
          rw [if_pos rfl] at hbooked
          split at hbooked
          · cases hbooked
          · exact (congrArg Db.effects (Option.some.inj hbooked)).symm
        | false => exact (congrArg Db.effects (Option.some.inj hbooked)).symm
    | body mf isUp => exact ho.elim
    | bookkeeping mf isUp => exact ho.elim
  | applied => exact h.1 ▸ Tells.refl _
  | _ => exact (h : db' = db) ▸ Tells.refl _

theorem execMigrationOn_transactional {isUp : Bool} (h : hasNoTxMarker mf.data = false) :
    Issues Transactional (execMigrationOn mf isUp) := by
  unfold execMigrationOn
  refine issues_ite (fun hmarked => ?_) fun _ => issues_bind (issues_ask trivial) fun r => ?_
  · rw [h] at hmarked
    cases hmarked
  · cases r with
    | ok n => exact issues_pure
    | error e => exact issues_bind (issues_ask trivial) fun _ => issues_throw

theorem withRunLock_transactional {fn : Proc Op Err (List String)} (h : Issues Transactional fn) : Issues Transactional (withRunLock fn) :=
  issues_bind (issues_attempt trivial) fun _ => issues_bind (issues_attempt trivial) fun _ => issues_bind (issues_attempt trivial) fun _ =>
    issues_iff.2 (h.calls.bind fun _ => ⟨trivial, fun _ => trivial⟩)

/-- No script of the directory asks to run outside a transaction. -/
def Scan.Transactional (s : Scan) : Prop := ∀ mf ∈ s.ups ++ s.downs, hasNoTxMarker mf.data = false

theorem runHooks_transactional (v : String) (n : Nat) : Issues Transactional (runHooks v n) := by
  induction n with
  | zero => exact issues_pure
  | succ i ih => exact issues_bind ih fun _ => issues_attempt trivial

theorem up_transactional (htx : ∀ s, scan entries = .ok s → s.Transactional) (limit : Int) :
    Issues Transactional (up entries hooks limit) := by
  refine withRunLock_transactional (issues_bind (issues_bind (issues_attempt trivial) fun _ => issues_pure) fun applied => ?_)
  cases hscan : scan entries with
  | error e => exact issues_throw
  | ok s =>
    show Issues Transactional (upLoop hooks s applied limit s.versions 0 [])
    have hup : ∀ v, hasNoTxMarker (s.up? v).data = false := by
      intro v
      rw [Scan.up?]
      cases hfind : s.ups.find? (·.version = v) with
      | none => decide
      | some mf => exact htx s hscan mf (List.mem_append_left _ (List.mem_of_find?_eq_some hfind))
    generalize s.versions = versions, 0 = n, ([] : List String) = acc
    induction versions generalizing n acc with
    | nil => exact issues_pure
    | cons v versions ih =>
      unfold upLoop
      exact issues_ite (fun _ => ih n acc) fun _ => issues_ite (fun _ => issues_pure) fun _ =>
        issues_bind (runHooks_transactional v _) fun _ => issues_bind (execMigrationOn_transactional (hup v)) fun _ => ih _ _

theorem down_transactional (htx : ∀ s, scan entries = .ok s → s.Transactional) (limit : Int) :
    Issues Transactional (down entries limit) := by
  unfold down
  refine issues_ite (fun _ => issues_throw) fun _ =>
    withRunLock_transactional (issues_bind (issues_bind (issues_attempt trivial) fun _ => issues_pure) fun applied => ?_)
  cases hscan : scan entries with
  | error e => exact issues_throw
  | ok s =>
    show Issues Transactional (downLoop s _ limit (s.versions.filter (· ∈ applied)).reverse 0 [])
    generalize (s.versions.filter (· ∈ applied)).reverse = versions, 0 = n, ([] : List String) = acc
    induction versions generalizing n acc with
    | nil => exact issues_pure
    | cons v versions ih =>
      unfold downLoop
      refine issues_ite (fun _ => issues_pure) fun _ => ?_
      cases hdown : s.down? v with
      | none => exact issues_throw
      | some mf =>
        have hmarked := htx s hscan mf (List.mem_append_right _ (List.mem_of_find?_eq_some hdown))
        exact issues_bind (execMigrationOn_transactional hmarked) fun _ => ih _ _

/-- Wherever `Up` or `Down` stops, the table says what took effect. -/
theorem table_tells (htx : ∀ s, scan entries = .ok s → s.Transactional) (limit : Int) {m : Script Op (Except Err (List String))}
    (h : Script.Path Step (up entries hooks limit).run db m db' ∨ Script.Path Step (down entries limit).run db m db') : Tells db db' := by
  have hrelates : ∀ p : Proc Op Err (List String), Issues Transactional p → Script.Path Step p.run db m db' → Tells db db' :=
    fun p hp hpath => hpath.relates Tells.refl (fun _ _ _ => Tells.trans) (fun o db r db' ho hstep => step_tells ho hstep) hp.calls
  rcases h with h | h
  · exact hrelates _ (up_transactional htx limit) h
  · exact hrelates _ (down_transactional htx limit) h

/-! ## Up and Down are inverse -/

/-- `Down` undoes `Up` and takes the latest migrations, each on its condition, and the table tells what took effect. -/
structure Undone (entries : List DirEntry) (s : Scan) : Prop where
  restored : ∀ (k : Nat) (hooks : String → Nat) (db db₁ db₂ : Db) (l l' : List String), 0 < k →
    Script.Path Step (up entries hooks k).run db (.ret (.ok l)) db₁ → l.length = k →
    Script.Path Step (down entries k).run db₁ (.ret (.ok l')) db₂ → ((∀ v, v ∈ db₂.rows ↔ v ∈ db.rows) ↔ Gapless s db.rows)
  latest : ∀ (k : Nat) (db db' : Db) (l : List String), 0 < k → Script.Path Step (down entries k).run db (.ret (.ok l)) db' →
    (l.Perm ((s.history db.rows).take k) ↔ LatestGreatest s db.rows k)
  told : s.Transactional → ∀ (limit : Int) (hooks : String → Nat) (db db' : Db) (m : Script Op (Except Err (List String))),
    Script.Path Step (up entries hooks limit).run db m db' ∨ Script.Path Step (down entries limit).run db m db' → Tells db db'

theorem migrations_undone (hscan : scan entries = .ok s) : Undone entries s where
  restored k hooks db db₁ db₂ l l' hk hup hl hdown := down_undoes_up hscan hk hup hl hdown
  latest k db db' l hk hdown := down_takes_latest hscan hk hdown
  told htx limit hooks db db' m h := by
    refine table_tells (fun s' hs' => ?_) limit h
    rw [hscan] at hs'
    exact Except.ok.inj hs' ▸ htx

/-! ## A branch that was merged late -/

/-- Every statement succeeds, unless the version is there already. -/
def succeed : {β : Type} → Op β → Db → β × Db
  | _, .applied, db => (.ok db.rows, db)
  | _, .exec (.transaction mf isUp), db => (((db.affect mf isUp).bookkeep mf isUp).elim (.error .database) fun _ => .ok 0,
      ((db.affect mf isUp).bookkeep mf isUp).getD db)
  | _, .exec (.body mf isUp), db => (.ok 0, db.affect mf isUp)
  | _, .exec (.bookkeeping mf isUp), db => ((db.bookkeep mf isUp).elim (.error .database) fun db' =>
      .ok (if isUp then 1 else db.rows.length - db'.rows.length), (db.bookkeep mf isUp).getD db)
  | _, .acquire, db => (.ok (), db)
  | _, .ensureVersionTable, db => (.ok (), db)
  | _, .lock, db => (.ok (), db)
  | _, .unlock, db => ((), db)
  | _, .hook _ _, db => (.ok (), db)
  | _, .rollback, db => ((), db)

theorem step_succeed {β : Type} (o : Op β) (db : Db) : Step o db (succeed o db).1 (succeed o db).2 := by
  cases o with
  | exec sql =>
    cases sql with
    | transaction mf isUp =>
      cases hbook : (db.affect mf isUp).bookkeep mf isUp with
      | none =>
        have hrun : succeed (.exec (.transaction mf isUp)) db = (.error .database, db) := by
          rw [succeed, hbook]
          rfl
        rw [hrun]
        exact .inl ⟨rfl, rfl⟩
      | some db' =>
        have hrun : succeed (.exec (.transaction mf isUp)) db = (.ok 0, db') := by
          rw [succeed, hbook]
          rfl
        rw [hrun]
        exact .inr hbook
    | body mf isUp => exact .inr rfl
    | bookkeeping mf isUp =>
      cases hbook : db.bookkeep mf isUp with
      | none =>
        have hrun : succeed (.exec (.bookkeeping mf isUp)) db = (.error .database, db) := by
          rw [succeed, hbook]
          rfl
        rw [hrun]
        exact .inl ⟨rfl, rfl⟩
      | some db' =>
        have hrun : succeed (.exec (.bookkeeping mf isUp)) db = (.ok (if isUp then 1 else db.rows.length - db'.rows.length), db') := by
          rw [succeed, hbook]
          rfl
        rw [hrun]
        exact .inr ⟨hbook, fun n hn => (Except.ok.inj hn).symm⟩
  | applied => exact ⟨rfl, fun rows h => (Except.ok.inj h).symm⟩
  | _ => exact rfl

def merged : List DirEntry :=
  [{ name := "001_a.up.sql" }, { name := "001_a.down.sql" }, { name := "003_c.up.sql" }, { name := "003_c.down.sql" }]

theorem migrations_undone_merged : ∃ s, scan merged = .ok s ∧ s.versions = ["001", "003"] ∧ Undone merged s := by
  have hok : (scan merged).isOk = true := by decide
  cases hscan : scan merged with
  | error e =>
    rw [hscan] at hok
    cases hok
  | ok s =>
    have hversions : (scan merged).map Scan.versions = .ok ["001", "003"] := by decide
    rw [hscan] at hversions
    exact ⟨s, rfl, Except.ok.inj hversions, migrations_undone hscan⟩

/-- The migration 001 of a branch that was merged after 003 was applied is not the one that is rolled back. -/
theorem merged_kept : ¬ ∀ (entries : List DirEntry) (s : Scan) (k : Nat) (hooks : String → Nat) (db db₁ db₂ : Db) (l l' : List String),
    scan entries = .ok s → 0 < k → Script.Path Step (up entries hooks k).run db (.ret (.ok l)) db₁ → l.length = k →
      Script.Path Step (down entries k).run db₁ (.ret (.ok l')) db₂ → ∀ v, v ∈ db₂.rows ↔ v ∈ db.rows := by
  intro h
  have hup := Script.run_path step_succeed (up merged (fun _ => 0) 1).run { rows := ["003"] }
  have hdown := Script.run_path step_succeed (down merged 1).run { rows := ["003", "001"], effects := [("001", true)] }
  have hups : (up merged (fun _ => 0) 1).run.run succeed { rows := ["003"] } =
    (.ok ["001"], { rows := ["003", "001"], effects := [("001", true)] }) := by decide
  have hdowns : (down merged 1).run.run succeed { rows := ["003", "001"], effects := [("001", true)] } =
    (.ok ["003"], { rows := ["001"], effects := [("001", true), ("003", false)] }) := by decide
  rw [hups] at hup
  rw [hdowns] at hdown
  have hok : (scan merged).isOk = true := by decide
  cases hscan : scan merged with
  | error e =>
    rw [hscan] at hok
    cases hok
  | ok s =>
    have hrow := h merged s 1 (fun _ => 0) _ _ _ _ _ hscan (by decide) hup rfl hdown "001"
    exact absurd (hrow.1 List.mem_cons_self) (by decide)

/-! ## Attempts that are cut off -/

/-- The migrations have been applied, in this order. -/
def Db.extend (db : Db) (vs : List String) : Db := { rows := db.rows ++ vs, effects := db.effects ++ vs.map fun v => (v, true) }

theorem extend_nil : db.extend [] = db := by simp [Db.extend]

theorem extend_append (vs ws : List String) : (db.extend vs).extend ws = db.extend (vs ++ ws) := by simp [Db.extend]

/-- Wherever it stops, a migration has been applied and recorded, or neither. -/
theorem execMigrationOn_passes (hmarked : hasNoTxMarker mf.data = false) :
    Passes Step (fun d => d = db ∨ d = db.extend [mf.version]) (execMigrationOn mf true) (fun _ d => d = db.extend [mf.version]) db := by
  have hbooked : ∀ {d}, (db.affect mf true).bookkeep mf true = some d → d = db.extend [mf.version] := by
    intro d hd
    obtain ⟨-, hd⟩ := Option.ite_none_left_eq_some.1 hd
    exact (Option.some.inj hd).symm
  unfold execMigrationOn
  rw [if_neg (by simp [hmarked])]
  refine passes_bind (passes_ask (.inl rfl) fun r d hrun => ?_)
  have hleft : d = db ∨ d = db.extend [mf.version] := hrun.imp And.right hbooked
  refine ⟨hleft, ?_⟩
  cases r with
  | ok n =>
    rcases hrun with ⟨hfailed, -⟩ | hdone
    · cases hfailed
    · exact passes_pure hleft (hbooked hdone)
  | error e =>
    refine passes_bind (passes_ask hleft fun r d' hd' => ?_)
    cases (hd' : d' = d)
    exact ⟨hleft, passes_throw hleft⟩

theorem runHooks_passes (v : String) (n : Nat) : Passes Step (· = db) (runHooks v n) (fun _ d => d = db) db := by
  induction n with
  | zero => exact passes_pure rfl rfl
  | succ i ih =>
    refine passes_bind (ih.mono (fun _ h => h) fun _ d h => ?_)
    subst h
    exact passes_attempt rfl fun r d' hd' => ⟨hd', fun _ _ => hd'⟩

/-- Wherever the loop stops, it has applied the first ones of the migrations that were pending. -/
theorem upLoop_passes {applied versions acc : List String} {n : Nat} {limit : Int} (hups : ∀ v ∈ versions, (s.up? v).version = v)
    (hmarked : ∀ v, hasNoTxMarker (s.up? v).data = false) :
    Passes Step (fun d => ∃ vs, vs <+: versions.filter (· ∉ applied) ∧ d = db.extend vs) (upLoop hooks s applied limit versions n acc)
      (fun l d => limit ≤ 0 → l = acc ++ versions.filter (· ∉ applied) ∧ d = db.extend (versions.filter (· ∉ applied))) db := by
  have hnone : ∀ {db : Db} (ws : List String), ∃ vs, vs <+: ws ∧ db = db.extend vs := fun ws => ⟨[], List.nil_prefix, extend_nil.symm⟩
  induction versions generalizing n acc db with
  | nil => exact passes_pure (hnone _) fun _ => ⟨(List.append_nil _).symm, extend_nil.symm⟩
  | cons v versions ih =>
    have hrest : ∀ w ∈ versions, (s.up? w).version = w := fun w hw => hups w (List.mem_cons_of_mem v hw)
    unfold upLoop
    refine passes_ite (fun hin => ?_) fun hin => passes_ite (fun hlimit => passes_pure (hnone _) fun hle => ?_) fun hlimit => ?_
    · rw [List.filter_cons_of_neg (by simpa using hin)]
      exact ih hrest
    · omega
    · rw [List.filter_cons_of_pos (by simpa using hin)]
      refine passes_bind ((runHooks_passes v (hooks v)).mono (fun d hd => hd ▸ hnone _) fun _ d hd => ?_)
      subst hd
      have hone : ∀ e, e = d.extend [(s.up? v).version] → ∃ vs, vs <+: v :: versions.filter (· ∉ applied) ∧ e = d.extend vs := by
        intro e he
        rw [hups v List.mem_cons_self] at he
        exact ⟨[v], List.prefix_iff_eq_append.2 rfl, he⟩
      refine passes_bind ((execMigrationOn_passes (hmarked v)).mono (fun e he => he.elim (fun he => he ▸ hnone _) (hone e)) fun _ e he => ?_)
      subst he
      rw [hups v List.mem_cons_self]
      refine (ih hrest).mono ?_ ?_
      · rintro f ⟨vs, hvs, rfl⟩
        exact ⟨v :: vs, List.cons_prefix_cons.2 ⟨rfl, hvs⟩, extend_append _ _⟩
      · intro l f hf hle
        obtain ⟨rfl, rfl⟩ := hf hle
        exact ⟨by simp, extend_append _ _⟩

/-- What is left to do after the first ones have been applied. -/
theorem pendingOf_extend (hs : s.Ok) {vs rest : List String} (h : s.pendingOf rows = vs ++ rest) : s.pendingOf (rows ++ vs) = rest := by
  have hnodup : (s.pendingOf rows).Nodup :=
    (hs.sorted.imp fun hab heq => absurd (heq ▸ hab) (lt_irrefl _)).sublist List.filter_sublist
  have hnorm : vs.map normVersion = vs := by
    refine (List.map_congr_left fun v hv => ?_).trans (List.map_id vs)
    exact normVersion_numbered (numbered_of_mem hs (mem_pendingOf.1 (h ▸ List.mem_append_left rest hv)).1)
  have hfilter : s.pendingOf (rows ++ vs) = (s.pendingOf rows).filter (· ∉ vs) := by
    rw [Scan.pendingOf, Scan.pendingOf, List.filter_filter, List.map_append, hnorm]
    exact List.filter_congr fun v _ => by simp [and_comm]
  rw [h] at hnodup
  rw [hfilter, h, List.filter_append, List.filter_eq_nil_iff.2 (by simp), List.nil_append, List.filter_eq_self]
  exact fun v hv => decide_eq_true fun hin => (List.nodup_append.1 hnodup).2.2 v hin v hv rfl

theorem withRunLock_passes {fn : Proc Op Err (List String)} {I : Db → Prop} {Q : List String → Db → Prop} (hdb : I db)
    (h : Passes Step I fn Q db) : Passes Step I (withRunLock fn) Q db := by
  have hdeferred : Passes Step I (deferred fn .unlock) Q db := passes_iff.2 <| Script.through_bind <|
    Script.through_mono (fun _ hs => hs) (fun r d hd hr => ⟨hd, fun _ d' hd' => (hd' : d' = d) ▸ ⟨hd, hr⟩⟩) (passes_iff.1 h)
  have hstep : ∀ {o : Op (Except Err Unit)} {m : Unit → Proc Op Err (List String)}, (∀ d r d', Step o d r d' → d' = d) →
      (∀ u, Passes Step I (m u) Q db) → Passes Step I (attempt o >>= m) Q db := by
    intro o m hsame hm
    refine passes_bind (passes_attempt hdb fun r d hd => ?_)
    obtain rfl := hsame _ _ _ hd
    exact ⟨hdb, fun u _ => hm u⟩
  exact hstep (fun _ _ _ h => h) fun _ => hstep (fun _ _ _ h => h) fun _ => hstep (fun _ _ _ h => h) fun _ => hdeferred

theorem up_passes (hscan : scan entries = .ok s) (htx : s.Transactional) {limit : Int} :
    Passes Step (fun d => ∃ vs, vs <+: s.pendingOf db.rows ∧ d = db.extend vs) (up entries hooks limit)
      (fun l d => limit ≤ 0 → l = s.pendingOf db.rows ∧ d = db.extend (s.pendingOf db.rows)) db := by
  have hhere : ∃ vs, vs <+: s.pendingOf db.rows ∧ db = db.extend vs := ⟨[], List.nil_prefix, extend_nil.symm⟩
  have hmarked : ∀ v, hasNoTxMarker (s.up? v).data = false := by
    intro v
    rw [Scan.up?]
    cases hfind : s.ups.find? (·.version = v) with
    | none => decide
    | some mf => exact htx mf (List.mem_append_left _ (List.mem_of_find?_eq_some hfind))
  refine withRunLock_passes hhere (passes_bind (passes_bind (passes_attempt hhere fun r d hd => ⟨hd.1 ▸ hhere, fun rows hr => ?_⟩)))
  obtain ⟨rfl, hrows⟩ := hd
  obtain rfl := hrows rows hr
  refine passes_pure hhere ?_
  rw [hscan]
  exact upLoop_passes (fun v => up?_version (scan_ok hscan)) hmarked

/-- `Up` is called, and returns, fails or is cut off. -/
def Attempted (entries : List DirEntry) (hooks : String → Nat) (db db' : Db) : Prop :=
  ∃ limit m, Script.Path Step (up entries hooks limit).run db m db'

/-- After any number of attempts, wherever they were cut off, an `Up` that returns has applied every pending migration once and in order. -/
theorem interrupted_up_resumes (hscan : scan entries = .ok s) (htx : s.Transactional) {db₁ db₂ : Db} {limit : Int} {l : List String}
    (hattempts : Relation.ReflTransGen (Attempted entries hooks) db db₁) (hlimit : limit ≤ 0)
    (hup : Script.Path Step (up entries hooks limit).run db₁ (.ret (.ok l)) db₂) :
    ∃ vs, s.pendingOf db.rows = vs ++ l ∧ db₁ = db.extend vs ∧ db₂ = db.extend (vs ++ l) := by
  have hdone : ∃ vs rest, s.pendingOf db.rows = vs ++ rest ∧ db₁ = db.extend vs ∧ s.pendingOf db₁.rows = rest := by
    clear hup
    induction hattempts with
    | refl => exact ⟨[], _, rfl, extend_nil.symm, rfl⟩
    | tail _ hnext ih =>
      obtain ⟨vs, rest, hpending, rfl, rfl⟩ := ih
      obtain ⟨limit, m, hpath⟩ := hnext
      obtain ⟨⟨new, ⟨rest, hnew⟩, rfl⟩, -⟩ := (up_passes hscan htx).path hpath
      have hsplit : s.pendingOf db.rows = (vs ++ new) ++ rest := by rw [hpending, ← hnew, List.append_assoc]
      exact ⟨vs ++ new, rest, hsplit, extend_append _ _, extend_append vs new ▸ pendingOf_extend (scan_ok hscan) hsplit⟩
  obtain ⟨vs, rest, hpending, rfl, rfl⟩ := hdone
  obtain ⟨rfl, rfl⟩ := ((up_passes hscan htx).path hup).2 l rfl hlimit
  exact ⟨vs, hpending, rfl, extend_append _ _⟩

/-- The second of two migrations is applied after an `Up` that was to apply one. -/
theorem interrupted_up_resumes_merged : ∃ s, scan merged = .ok s ∧
    ∃ vs, s.pendingOf [] = vs ++ ["003"] ∧ Db.mk ["001"] [("001", true)] = (Db.mk [] []).extend vs ∧
      Db.mk ["001", "003"] [("001", true), ("003", true)] = (Db.mk [] []).extend (vs ++ ["003"]) := by
  have hfirst := Script.run_path step_succeed (up merged (fun _ => 0) 1).run (Db.mk [] [])
  have hsecond := Script.run_path step_succeed (up merged (fun _ => 0) 0).run (Db.mk ["001"] [("001", true)])
  have hfirsts : (up merged (fun _ => 0) 1).run.run succeed (Db.mk [] []) = (.ok ["001"], Db.mk ["001"] [("001", true)]) := by decide
  have hseconds : (up merged (fun _ => 0) 0).run.run succeed (Db.mk ["001"] [("001", true)]) =
    (.ok ["003"], Db.mk ["001", "003"] [("001", true), ("003", true)]) := by decide
  rw [hfirsts] at hfirst
  rw [hseconds] at hsecond
  have htx : ((scan merged).map fun s => (s.ups ++ s.downs).all fun mf => !hasNoTxMarker mf.data) = .ok true := by decide
  cases hscan : scan merged with
  | error e =>
    rw [hscan] at htx
    cases htx
  | ok s =>
    rw [hscan] at htx
    have hall := List.all_eq_true.1 (Except.ok.inj htx)
    exact ⟨s, rfl, interrupted_up_resumes hscan (fun mf hmf => by simpa using hall mf hmf) (.single ⟨1, _, hfirst⟩) le_rfl hsecond⟩

end Ploykit.Pgmigrate

import Ploykit.Billing.Registry

/-!
# The active channels

After a save has returned, its refresh successful, channels are built from settings at
least as new, where no refresh installs what it has read before a save that has been
refreshed already.
-/

namespace Ploykit.Billing.Registry

open Lib Lib.Proc

/-- The answer comes from channels that are built from a version of the settings not before `v`. -/
def Event.From (svc : Service) (settings : List Table) (v : Nat) : Event → Prop
  | .get name ch => ∃ n table, v ≤ n ∧ settings[n]? = some table ∧ (svc.build (svc.billingChannelFields table)).1.lookup name = ch
  | .orderedNames names => ∃ n table, v ≤ n ∧ settings[n]? = some table ∧ (svc.build (svc.billingChannelFields table)).2 = names
  | .saved _ => True

/-- What is answered after a save has returned comes from settings at least as new. The latest is first. -/
def Current (svc : Service) (settings : List Table) (history : List Event) : Prop :=
  history.Pairwise fun later earlier => ∀ v, earlier = .saved v → later.From svc settings v

/-- A set is installed whose settings are at least as new as every save that has installed one. -/
def InOrder (i : Nat) : {β : Type} → Op β → World → Prop
  | _, .swap _ _, w => ∀ n, (w.progress i).read = some n → ∀ v ∈ w.refreshed, v ≤ n
  | _, _, _ => True

/-! ## What is installed -/

section monitor

variable (svc : Service)

/-- The fields that a session has read last, since it has written. -/
def nextRead : {β : Type} → Option Fields → Op β → β → Option Fields
  | _, _, .begin, _ => none
  | _, _, .all, .ok all => some (svc.billingChannelFields all)
  | _, _, .writeMany _, _ => none
  | _, s, _, _ => s

/-- Only what has been built from them is installed. -/
def Installs : {β : Type} → Option Fields → Op β → Prop
  | _, s, .swap channels names => ∃ fields, s = some fields ∧ (channels, names) = svc.build fields
  | _, _, _ => True

def monitor : Monitor Op (Option Fields) where
  allows s := Installs svc s
  next s := nextRead svc s
  rests _ := True
  init := none
  abort s := s
  init_rests := trivial
  abort_rests _ := trivial

end monitor

section rules

variable {svc : Service} {α β : Type} {s : Option Fields}

/-- The procedure installs only what it has built. -/
abbrev Builds (svc : Service) (s : Option Fields) (m : Proc α) : Prop :=
  Obeys (monitor svc) (fun _ _ => True) s m fun _ _ => True

theorem builds_bind {m : Proc β} {f : β → Proc α} (hm : Builds svc s m) (hf : ∀ s b, Builds svc s (f b)) :
    Builds svc s (m >>= f) := obeys_bind (hm.mono fun s b _ => hf s b)

/-- The errors of a procedure may be looked at. -/
theorem builds_run {m : Proc α} (hm : Builds svc s m) : Builds svc s (ExceptT.lift m.run) :=
  Script.follows_bind (Script.Follows.mono hm fun _ _ _ => trivial)

theorem builds_source : Obeys (monitor svc) (fun _ _ => True) s svc.source fun s fields => s = some fields :=
  obeys_bind (obeys_attempt trivial (fun _ => obeys_pure rfl) fun _ => trivial)

theorem builds_refreshNow : Builds svc s svc.refreshNow := by
  refine obeys_bind (builds_source.mono fun s fields hs => ?_)
  exact obeys_ask ⟨fields, hs, rfl⟩ fun _ => trivial

theorem builds_foldlM {f : β → α → Proc β} (hf : ∀ s b a, Builds svc s (f b a)) (l : List α) (b : β) :
    Builds svc s (l.foldlM f b) := by
  induction l generalizing s b with
  | nil => exact obeys_pure trivial
  | cons a l ih =>
    rw [List.foldlM_cons]
    exact builds_bind (hf s b a) fun s b => ih b

theorem builds_setMany {kv : GoMap String} : Builds svc s (svc.setMany kv) := by
  refine builds_bind (builds_foldlM (fun s m e => ?_) _ _) fun s sealed_ =>
    obeys_attempt trivial (fun _ => trivial) fun _ => trivial
  cases svc.sealValue e.1 e.2 with
  | ok v => exact obeys_pure trivial
  | error err => exact obeys_throw trivial

theorem builds_updateChannelFields {channel : String} {fields : GoMap String} :
    Builds svc s (svc.updateChannelFields channel fields) := by
  refine obeys_ite (fun _ => obeys_throw trivial) fun _ => obeys_bind (obeys_ask trivial fun found => ?_)
  cases found with
  | none => exact obeys_throw trivial
  | some ch =>
    refine obeys_ite (fun _ => obeys_throw trivial) fun _ => ?_
    cases ch.collectWrites channel fields with
    | error e => exact obeys_throw trivial
    | ok writes =>
      have hsave : ∀ s, Builds svc s (svc.saveFields writes) := by
        refine fun s => builds_bind (builds_run builds_setMany) fun s r => ?_
        cases r with
        | ok _ => exact obeys_pure trivial
        | error err => exact obeys_ite (fun _ => obeys_throw trivial) fun _ => obeys_throw trivial
      have hrefresh : ∀ s, Builds svc s svc.refreshSaved := fun s =>
        obeys_ite (fun _ => builds_bind (builds_run builds_refreshNow) fun s _ => obeys_pure trivial) fun _ => obeys_pure trivial
      have hread : ∀ s, Builds svc s svc.channelFields := fun s =>
        obeys_ite (fun _ => builds_source.mono fun _ _ _ => trivial) fun _ => obeys_pure trivial
      refine builds_bind (hsave _) fun s _ => builds_bind (hrefresh s) fun s _ => ?_
      exact builds_bind (obeys_ask trivial fun _ => trivial) fun s fresh => builds_bind (hread s) fun s dbFields => obeys_pure trivial

theorem program_accepts {m : Script Op Unit} (h : Program svc m) : (monitor svc).Accepts m := by
  obtain ⟨g, rfl⟩ := h
  intro s _
  have hexec : Builds svc none (g.exec svc) := by
    cases g with
    | refreshNow => exact builds_refreshNow
    | get name => exact builds_bind (obeys_ask trivial fun _ => trivial) fun _ _ => obeys_pure trivial
    | orderedNames => exact builds_bind (obeys_ask trivial fun _ => trivial) fun _ _ => obeys_pure trivial
    | updateChannelFields channel fields => exact builds_bind builds_updateChannelFields fun _ _ => obeys_pure trivial
  refine Script.follows_bind (Script.follows_op trivial fun _ => Script.follows_bind (Script.Follows.mono hexec fun _ _ _ => ?_))
  exact Script.follows_op trivial fun _ => trivial

end rules

/-! ## What is kept -/

/-- A session has written no later version than there is, reads none before the one that it has
written, and its installed save is recorded. -/
structure Progress.Ordered (p : Progress) (settings : List Table) (refreshed : List Nat) : Prop where
  wrote : ∀ v, p.wrote = some v → v ≤ settings.length - 1
  read : ∀ v n, p.wrote = some v → p.read = some n → v ≤ n
  refreshed : ∀ v, p.refreshed = some v → v ∈ refreshed

/-- The fields are those of the version that the session has read. -/
def Progress.Knows (svc : Service) (p : Progress) (settings : List Table) (s : Option Fields) : Prop :=
  ∀ fields, s = some fields → ∃ n table, p.read = some n ∧ settings[n]? = some table ∧ fields = svc.billingChannelFields table

structure Kept (svc : Service) (w : World) (seen : Nat → Option Fields) : Prop where
  nonempty : w.settings ≠ []
  built : ∀ n, w.built = some n → ∃ table, w.settings[n]? = some table ∧
    (w.channels, w.names) = svc.build (svc.billingChannelFields table)
  /-- No save that has installed a set is newer than the installed one. -/
  refreshed : ∀ v ∈ w.refreshed, ∃ n, w.built = some n ∧ v ≤ n
  saved : ∀ v, .saved v ∈ w.history → v ∈ w.refreshed
  current : Current svc w.settings w.history
  ordered : ∀ i, (w.progress i).Ordered w.settings w.refreshed
  knows : ∀ i, (w.progress i).Knows svc w.settings (seen i)

section kept

variable {svc : Service} {w w' : World} {i : Nat} {seen : Nat → Option Fields} {s : Option Fields} {e : Event}
  {settings : List Table}

theorem newAtomicRegistry_kept (table : Table) (ok : Bool) : Kept svc (newAtomicRegistry svc table ok) fun _ => none where
  nonempty := List.cons_ne_nil _ _
  built n hn := by
    cases ok with
    | true =>
      cases hn
      exact ⟨table, rfl, rfl⟩
    | false => cases hn
  refreshed v hv := by cases hv
  saved v hv := by cases hv
  current := .nil
  ordered i := ⟨nofun, nofun, nofun⟩
  knows i := nofun

/-- A version that has been stays where it was. -/
theorem getElem?_grown {n : Nat} {table : Table} (more : List Table) (h : settings[n]? = some table) :
    (settings ++ more)[n]? = some table := by
  obtain ⟨hn, -⟩ := List.getElem?_eq_some_iff.1 h
  exact (List.getElem?_append_left hn).trans h

theorem Event.From.grow {v : Nat} (more : List Table) (h : e.From svc settings v) : e.From svc (settings ++ more) v := by
  cases e with
  | saved _ => trivial
  | _ =>
    obtain ⟨n, table, hle, htable, hfrom⟩ := h
    exact ⟨n, table, hle, getElem?_grown more htable, hfrom⟩

/-- More settings are saved. -/
theorem Kept.grow (h : Kept svc w seen) (more : List Table) : Kept svc { w with settings := w.settings ++ more } seen where
  nonempty := List.append_ne_nil_of_left_ne_nil h.nonempty more
  built n hn := by
    obtain ⟨table, htable, hbuild⟩ := h.built n hn
    exact ⟨table, getElem?_grown more htable, hbuild⟩
  refreshed := h.refreshed
  saved := h.saved
  current := h.current.imp fun hcurrent v hv => (hcurrent v hv).grow more
  ordered i :=
    have hlength : w.settings.length - 1 ≤ (w.settings ++ more).length - 1 :=
      Nat.sub_le_sub_right (List.length_append ▸ Nat.le_add_right ..) 1
    ⟨fun v hv => ((h.ordered i).wrote v hv).trans hlength, (h.ordered i).read, (h.ordered i).refreshed⟩
  knows i fields hs := by
    obtain ⟨n, table, hread, htable, hfields⟩ := h.knows i fields hs
    exact ⟨n, table, hread, getElem?_grown more htable, hfields⟩

/-- Rows are stored, or none are. -/
theorem Kept.write (h : Kept svc w seen) (kv : GoMap String) : Kept svc (w.write kv) seen := by
  unfold World.write
  split
  · exact h
  · exact h.grow _

/-- One session moves on. -/
theorem Kept.note (h : Kept svc w seen) {f : Progress → Progress} (hordered : (f (w.progress i)).Ordered w.settings w.refreshed)
    (hknows : (f (w.progress i)).Knows svc w.settings s) : Kept svc (w.note i f) (Function.update seen i s) where
  nonempty := h.nonempty
  built := h.built
  refreshed := h.refreshed
  saved := h.saved
  current := h.current
  ordered j := by
    rcases eq_or_ne j i with rfl | hj
    · simpa [World.note] using hordered
    · simpa [World.note, hj] using h.ordered j
  knows j := by
    rcases eq_or_ne j i with rfl | hj
    · simpa [World.note] using hknows
    · simpa [World.note, hj] using h.knows j

/-- What a session has read is not installed any more. -/
theorem Kept.forget (h : Kept svc w seen) : Kept svc w (Function.update seen i none) where
  nonempty := h.nonempty
  built := h.built
  refreshed := h.refreshed
  saved := h.saved
  current := h.current
  ordered := h.ordered
  knows j := by
    rcases eq_or_ne j i with rfl | hj
    · rw [Function.update_self]
      exact nofun
    · rw [Function.update_of_ne hj]
      exact h.knows j

/-- Something is answered, or a save returns. -/
theorem Kept.record (h : Kept svc w seen) (hfrom : ∀ v ∈ w.refreshed, e.From svc w.settings v)
    (hsaved : ∀ v, e = .saved v → v ∈ w.refreshed) : Kept svc (w.record e) seen where
  nonempty := h.nonempty
  built := h.built
  refreshed := h.refreshed
  saved v hv := by
    rcases List.mem_cons.1 hv with heq | hv
    · exact hsaved v heq.symm
    · exact h.saved v hv
  current := List.pairwise_cons.2 ⟨fun e' he' v heq => hfrom v (h.saved v (heq ▸ he')), h.current⟩
  ordered := h.ordered
  knows := h.knows

/-- Every save that has installed a set is no newer than what answers come from. -/
theorem Kept.answers (h : Kept svc w seen) {v : Nat} (hv : v ∈ w.refreshed) : ∃ n table, v ≤ n ∧ w.settings[n]? = some table ∧
    (w.channels, w.names) = svc.build (svc.billingChannelFields table) := by
  obtain ⟨n, hn, hle⟩ := h.refreshed v hv
  obtain ⟨table, htable, hbuild⟩ := h.built n hn
  exact ⟨n, table, hle, htable, hbuild⟩

/-- A session installs what it has built. -/
theorem Kept.install (h : Kept svc w seen) {channels : Channels} {names : List String}
    (hinstalls : Installs svc (seen i) (.swap channels names)) (horder : InOrder i (.swap channels names) w) :
    Kept svc (w.install i channels names) seen := by
  obtain ⟨fields, hseen, hbuild⟩ := hinstalls
  obtain ⟨n, table, hread, htable, rfl⟩ := h.knows i fields hseen
  have hmore : ∀ v ∈ w.refreshed, v ∈ (w.progress i).wrote.toList ++ w.refreshed := fun v hv => List.mem_append_right _ hv
  have hinstalled : Kept svc { w with
      channels, names, built := (w.progress i).read, refreshed := (w.progress i).wrote.toList ++ w.refreshed } seen := by
    refine ⟨h.nonempty, fun n' hn' => ?_, fun v hv => ⟨n, hread, ?_⟩, fun v hv => hmore v (h.saved v hv), h.current, fun j => ?_, h.knows⟩
    · obtain rfl : n = n' := Option.some.inj (hread.symm.trans hn')
      exact ⟨table, htable, hbuild⟩
    · rcases List.mem_append.1 hv with hv | hv
      · exact (h.ordered i).read v n (Option.mem_toList.1 hv) hread
      · exact horder n hread v hv
    · exact ⟨(h.ordered j).wrote, (h.ordered j).read, fun v hv => hmore v ((h.ordered j).refreshed v hv)⟩
  have hself : Function.update seen i (seen i) = seen := Function.update_eq_self i seen
  rw [← hself]
  refine hinstalled.note ⟨(h.ordered i).wrote, (h.ordered i).read, fun v hv => ?_⟩ (h.knows i)
  exact List.mem_append_left _ (Option.mem_toList.2 hv)

theorem getElem?_version (h : w.settings ≠ []) : w.settings[w.version]? = some w.table := by
  rw [World.version, ← List.getLast?_eq_getElem?, World.table, List.getLastD_eq_getLast?]
  cases hlast : w.settings.getLast? with
  | none => exact absurd (List.getLast?_eq_none_iff.1 hlast) h
  | some table => rfl

/-- Every call keeps what the active channels are built from in order. -/
theorem Step.kept {β : Type} {o : Op β} {r : β} (h : Step i o w r w') (hinstalls : Installs svc (seen i) o)
    (horder : InOrder i o w) (hw : Kept svc w seen) : Kept svc w' (Function.update seen i (nextRead svc (seen i) o r)) := by
  have hself : Function.update seen i (seen i) = seen := Function.update_eq_self i seen
  cases o with
  | begin =>
    cases h
    exact hw.note ⟨nofun, nofun, nofun⟩ nofun
  | returned =>
    cases h
    rw [nextRead, hself]
    split
    · rename_i v hv
      refine hw.record (fun _ _ => trivial) fun v' heq => ?_
      cases heq
      exact (hw.ordered i).refreshed v hv
    · exact hw
  | get name =>
    obtain ⟨rfl, rfl⟩ := h
    rw [nextRead, hself]
    refine hw.record (fun v hv => ?_) nofun
    obtain ⟨n, table, hle, htable, hbuild⟩ := hw.answers hv
    exact ⟨n, table, hle, htable, congrArg (fun set => set.1.lookup name) hbuild.symm⟩
  | orderedNames =>
    obtain ⟨rfl, rfl⟩ := h
    rw [nextRead, hself]
    refine hw.record (fun v hv => ?_) nofun
    obtain ⟨n, table, hle, htable, hbuild⟩ := hw.answers hv
    exact ⟨n, table, hle, htable, congrArg Prod.snd hbuild.symm⟩
  | all =>
    rcases h with ⟨⟨e, rfl⟩, rfl⟩ | ⟨rfl, rfl⟩
    · rw [nextRead, hself]
      exact hw
    · refine hw.note ⟨(hw.ordered i).wrote, fun v n hv hn => ?_, (hw.ordered i).refreshed⟩ fun fields hfields => ?_
      · cases hn
        exact (hw.ordered i).wrote v hv
      · cases hfields
        exact ⟨w.version, w.table, rfl, getElem?_version hw.nonempty, rfl⟩
  | swap channels names =>
    cases h
    rw [nextRead, hself]
    exact hw.install hinstalls horder
  | writeMany kv =>
    rcases h with ⟨-, ⟨e, rfl⟩, hw'⟩ | ⟨rfl, rfl⟩
    · have hkept : Kept svc w' seen := by
        rcases hw' with rfl | rfl
        · exact hw
        · exact hw.write kv
      exact hkept.forget
    · refine (hw.write kv).note ⟨fun v hv => ?_, nofun, nofun⟩ nofun
      cases hv
      exact le_refl _

end kept

/-! ## Runs -/

/-- In every run in which no set is installed over a save that it has not seen, what is answered after
a save has returned comes from settings at least as new. -/
theorem saved_active (svc : Service) (table : Table) (ok : Bool) {past : List (Pool Op World Unit)} {p : Pool Op World Unit}
    (h : Run (Pool.Next (machine.given InOrder) (Program svc)) (.idle (newAtomicRegistry svc table ok)) past p) :
    Current svc p.shared.settings p.shared.history := by
  obtain ⟨past', q, hrun, rfl⟩ := Pool.run_watched (W := monitor svc) h
  have hkept : Kept svc q.shared.1 q.shared.2 := by
    refine Pool.watched_invariant (I := fun x : World × (Nat → Option Fields) => Kept svc x.1 x.2) hrun
      (fun m hm => program_accepts hm) (newAtomicRegistry_kept table ok) ?_ ?_ ?_
    · intro i β o r x x' hx hallows _ hstep hseen
      rw [hseen]
      exact hstep.2.kept hallows hstep.1 hx
    · intro i x hx
      have hself : Function.update x.2 i (x.2 i) = x.2 := Function.update_eq_self i x.2
      exact hself.symm ▸ hx
    · intro x w' hx henv
      obtain ⟨table, rfl⟩ := henv
      exact hx.grow [table]
  exact hkept.current

/-! ### A refresh that is overtaken -/

def inOrder (i : Nat) : {β : Type} → Op β → World → Bool
  | _, .swap _ _, w => (w.progress i).read.all fun n => w.refreshed.all fun v => v ≤ n
  | _, _, _ => true

theorem inOrder_holds (i : Nat) {β : Type} (o : Op β) (w : World) (h : inOrder i o w) : InOrder i o w := by
  cases o with
  | swap channels names =>
    intro n hn v hv
    have hall := h
    rw [inOrder, hn] at hall
    exact of_decide_eq_true (List.all_eq_true.1 hall v hv)
  | _ => trivial

/-- The key is used after it has been saved. -/
def savedThenUsed : Turns := saves 0 ++ calls 1 (.get "stripe") 2

theorem savedThenUsed_legal {M : Machine Op World} : savedThenUsed.Forall (Turn.Legal M (Program plainService)) :=
  List.forall_append.2 ⟨calls_legal .., calls_legal ..⟩

/-- The keys that have been used after the last save. -/
def keysUsed : List Event → List String
  | .get _ (some ch) :: history => (ch.channelConfig.map ChannelConfigInfo.keyMasked).getD "" :: keysUsed history
  | _ => []

theorem saved_active_used : ∃ past p,
    Run (Pool.Next (machine.given InOrder) (Program plainService)) (.idle (newAtomicRegistry plainService oldTable true)) past p ∧
    keysUsed p.shared.history = ["new"] ∧ Current plainService p.shared.settings p.shared.history := by
  have hplay : (Pool.play (guarded inOrder execs) savedThenUsed (.idle (newAtomicRegistry plainService oldTable true))).any fun p =>
      keysUsed p.shared.history = ["new"] := by decide
  obtain ⟨past, p, hrun, hcheck⟩ := Pool.play_any (guarded_step inOrder_holds execs_step) savedThenUsed_legal hplay
  exact ⟨past, p, hrun, of_decide_eq_true hcheck, saved_active plainService oldTable true hrun⟩

/-- The poll has read the settings before, and installs what it has built after the save has returned. -/
def overtaken : Turns := calls 1 .refreshNow 2 ++ saves 0 ++ [.calls 1 1] ++ calls 2 (.get "stripe") 2

theorem overtaken_legal {M : Machine Op World} : overtaken.Forall (Turn.Legal M (Program plainService)) := by
  refine List.forall_append.2 ⟨List.forall_append.2 ⟨List.forall_append.2 ⟨calls_legal .., calls_legal ..⟩, ?_⟩, calls_legal ..⟩
  trivial

/-- The channel that the name stands for in a version of the settings. -/
def channelAt (settings : List Table) (name : String) (n : Nat) : Option PaymentChannel :=
  settings[n]?.bind fun table => (plainService.build (plainService.billingChannelFields table)).1.lookup name

/-- The last call gets another channel than the settings saved before it stand for. -/
def getsStale (settings : List Table) : List Event → Bool
  | .get name ch :: .saved v :: _ => settings.length = v + 1 ∧ channelAt settings name v ≠ ch
  | _ => false

theorem replaced_key_used : ¬ ∀ (svc : Service) (table : Table) (ok : Bool) past (p : Pool Op World Unit),
    Run (Pool.Next machine (Program svc)) (.idle (newAtomicRegistry svc table ok)) past p →
    Current svc p.shared.settings p.shared.history := by
  intro h
  have hplay : (Pool.play execs overtaken (.idle (newAtomicRegistry plainService oldTable true))).any fun p =>
      getsStale p.shared.settings p.shared.history := by decide
  obtain ⟨past, p, hrun, hcheck⟩ := Pool.play_any execs_step overtaken_legal hplay
  have hcurrent := h plainService oldTable true past p hrun
  unfold getsStale at hcheck
  split at hcheck
  · rename_i name ch v history hhistory
    obtain ⟨hlength, hstale⟩ := of_decide_eq_true hcheck
    rw [hhistory] at hcurrent
    obtain ⟨n, table, hle, htable, hfrom⟩ := (List.pairwise_cons.1 hcurrent).1 _ List.mem_cons_self v rfl
    -- the save is the last version
    obtain ⟨hn, -⟩ := List.getElem?_eq_some_iff.1 htable
    obtain rfl : v = n := Nat.le_antisymm hle (Nat.le_of_lt_succ (hn.trans_eq hlength))
    refine hstale ?_
    rw [channelAt, htable]
    exact hfrom
  · cases hcheck

end Ploykit.Billing.Registry

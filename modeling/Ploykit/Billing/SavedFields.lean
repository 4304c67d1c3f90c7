import Ploykit.Billing.Redaction

/-!
# Saved fields

A mask slices three bytes off an id of any length that is not zero, in every rebuild and card.
So no save should leave such an id to a channel that can be built, and a save that changes a
field should not report a failure once it is stored. Then requests do what they should in every
world that a run reaches.
-/

namespace Ploykit.Billing.Adapters

open Registry

variable {w : Wiring} {world world' : World} {channel key : String} {fields : GoMap String} {o : Outcomes} {ch : Channel} {f f' : Fields}
  {face : PaymentChannel}

/-! ## Rebuilding -/

theorem shownEntries_ok_iff {entries : List (String × Go PaymentChannel)} {acc : Channels} :
    (∃ shown, entries.foldlM (fun (shown : Channels) e => do return shown.insert e.1 (← e.2)) acc = .ok shown) ↔
      ∀ e ∈ entries, ∃ face, e.2 = .ok face := by
  induction entries generalizing acc with
  | nil => exact iff_of_true ⟨acc, rfl⟩ (List.forall_mem_nil _)
  | cons e entries ih =>
    rw [List.forall_mem_cons]
    obtain ⟨name, outcome⟩ := e
    cases outcome with
    | error p =>
      refine iff_of_false ?_ ?_
      · rintro ⟨shown, hshown⟩
        cases hshown
      · rintro ⟨⟨face, hface⟩, -⟩
        cases hface
    | ok face => exact ih.trans (and_iff_right ⟨face, rfl⟩).symm

theorem presentable_iff : w.Presentable f ↔ ∀ e ∈ shownEntries w (w.build f), ∃ face, e.2 = .ok face := by
  unfold shownEntries
  rw [List.forall_mem_map]
  exact forall₂_congr fun e _ => Channel.shown_ok_iff.symm

theorem orderedNames_ok_iff : (∃ names, w.orderedNames (w.build f) = .ok names) ↔ w.Presentable f := by
  rw [presentable_iff, ← shownEntries_ok_iff, ← shownChannels_eq]
  unfold Wiring.orderedNames
  cases w.shownChannels (w.build f) with
  | error p => exact iff_of_false (by rintro ⟨names, hnames⟩; cases hnames) (by rintro ⟨shown, hshown⟩; cases hshown)
  | ok shown => exact iff_of_true ⟨_, rfl⟩ ⟨shown, rfl⟩

/-- A rebuild panics where a factory builds a channel with a short id, and nowhere else. -/
theorem rebuild_ok_iff : (∃ world', w.rebuild f world = .ok world') ↔ w.Presentable f := by
  rw [← orderedNames_ok_iff]
  unfold Wiring.rebuild
  dsimp only
  cases w.orderedNames (w.build f) with
  | error p => exact iff_of_false (by rintro ⟨world', h⟩; cases h) (by rintro ⟨names, h⟩; cases h)
  | ok names => exact iff_of_true ⟨_, rfl⟩ ⟨names, rfl⟩

theorem rebuild_built (h : w.rebuild f world = .ok world') : world'.settings = world.settings ∧ Built w world' := by
  obtain ⟨names, hnames, hworld'⟩ := ok_of_bind h
  injection hworld' with hworld'
  rw [← hworld']
  exact ⟨rfl, rfl, hnames⟩

theorem Wiring.Alike.presentable (h : w.Alike f f') (hf : w.Presentable f) : w.Presentable f' := by
  rw [presentable_iff, build_alike h] at hf
  exact presentable_iff.2 hf

/-- The registry has been built, and can be rebuilt from what is stored. -/
structure Standing (w : Wiring) (world : World) : Prop extends Built w world where
  presentable : w.Presentable world.settings

namespace Standing

theorem maskable (h : Standing w world) {e : String × Channel} (he : e ∈ world.channels) : e.2.Maskable := by
  have hbuilt : w.Presentable world.built := orderedNames_ok_iff.1 ⟨_, h.channels ▸ h.names⟩
  rw [h.channels] at he
  exact hbuilt e he

theorem get_maskable (h : Standing w world) (hget : world.get channel = some ch) : ch.Maskable := by
  obtain ⟨before, after, hchannels, -⟩ := List.lookup_eq_some_iff.1 hget
  exact h.maskable (show (channel, ch) ∈ world.channels by simp [hchannels])

theorem refreshNow (h : Standing w world) (read : Bool) :
    ∃ world', w.refreshNow read world = .ok world' ∧ world'.settings = world.settings ∧ Standing w world' := by
  unfold Wiring.refreshNow
  cases read with
  | false => exact ⟨world, rfl, rfl, h⟩
  | true =>
    obtain ⟨world', hworld'⟩ := rebuild_ok_iff.2 h.presentable
    obtain ⟨hsettings, hbuilt⟩ := rebuild_built hworld'
    exact ⟨world', hworld', hsettings, { hbuilt with presentable := hsettings ▸ h.presentable }⟩

/-! ## Views -/

theorem channelCards (h : Standing w world) (read : Bool) : ∃ r, w.channelCards read world = .ok r := by
  have hshown : ∃ shown, w.shownChannels world.channels = .ok shown := by
    rw [shownChannels_eq]
    refine shownEntries_ok_iff.2 fun e he => ?_
    obtain ⟨entry, hentry, rfl⟩ := List.mem_map.1 he
    exact Channel.shown_ok_iff.2 (h.maskable hentry)
  obtain ⟨shown, hshown⟩ := hshown
  unfold Wiring.channelCards
  cases w.channelFields read world with
  | error err => exact ⟨_, rfl⟩
  | ok fields =>
    rw [hshown]
    exact ⟨_, rfl⟩

theorem configView (h : Standing w world) (name : String) : ∃ view, world.configView name = .ok view := by
  unfold World.configView
  cases hget : world.get name with
  | none => exact ⟨_, rfl⟩
  | some ch =>
    obtain ⟨info, hinfo⟩ := Channel.channelConfig_ok_iff.2 (h.get_maskable hget)
    dsimp only
    rw [hinfo]
    exact ⟨_, rfl⟩

theorem billingConfig (h : Standing w world) : ∃ views, world.billingConfig = .ok views := by
  have hviews : ∀ names : List String, ∃ views, names.mapM world.configView = .ok views := by
    intro names
    induction names with
    | nil => exact ⟨[], rfl⟩
    | cons name names ih =>
      obtain ⟨view, hview⟩ := h.configView name
      obtain ⟨views, hviews⟩ := ih
      rw [List.mapM_cons, hview, hviews]
      exact ⟨view :: views, rfl⟩
  obtain ⟨views, hviews⟩ := hviews world.names
  rw [World.billingConfig, hviews]
  exact ⟨_, rfl⟩

end Standing

/-! ## Saving -/

/-- Where a field passes its check, what it asks for is stored. -/
theorem checkField_ok {raw : String} {r : Option String} (h : face.checkField channel key raw = .ok r) : r = asks face key raw := by
  unfold PaymentChannel.checkField at h
  unfold asks
  cases hspec : face.spec key with
  | none =>
    rw [hspec] at h
    cases h
  | some spec =>
    rw [hspec] at h
    dsimp only at h
    split at h
    · cases h
    · split at h
      · rename_i hkeeps
        injection h with h
        rw [if_pos ⟨by simpa using hkeeps.1, hkeeps.2⟩, h]
      · rename_i hkeeps
        have hasks : ¬ ((some spec).any (fun spec => spec.type = .secret) ∧
            (Strings.trimSpace raw = "" ∨ Strings.trimSpace raw = channelSecretSetMarker)) := by simpa using hkeeps
        rw [if_neg hasks]
        split at h
        · cases h
        · split at h
          · cases h
          · injection h with h
            exact h.symm

theorem collect_ok {writes : GoMap String} (h : collect face channel fields = .ok writes) :
    writes = submitted face fields ∧ Accepts face channel fields := by
  unfold collect at h
  unfold submitted Accepts
  generalize (∅ : GoMap String) = acc at h ⊢
  generalize fields.entries = entries at h ⊢
  induction entries generalizing acc with
  | nil =>
    injection h with h
    exact ⟨h.symm, List.forall_mem_nil _⟩
  | cons e entries ih =>
    rw [List.foldlM_cons] at h
    obtain ⟨acc', hacc', hrest⟩ := ok_of_bind h
    obtain ⟨r, hr, hput⟩ := ok_of_bind hacc'
    obtain ⟨hwrites, haccepts⟩ := ih acc' hrest
    refine ⟨?_, List.forall_mem_cons.2 ⟨⟨r, hr⟩, haccepts⟩⟩
    have hsubmit : acc' = submit face acc e := by
      rw [submit, ← checkField_ok hr]
      cases r with
      | none => exact (Except.ok.inj hput).symm
      | some v => exact (Except.ok.inj hput).symm
    rw [hwrites, List.foldl_cons, ← hsubmit]

/-! ### Fields -/

theorem field_put {writes : GoMap String} (c k : String) : field (put f channel writes) c k =
    if c = channel then (writes.lookup k).or (field f channel k) else field f c k := by
  unfold field put Wiring.fieldsOf
  split
  · rename_i hc
    subst hc
    rw [AList.lookup_insert, Option.getD_some]
    cases hw : writes.lookup k with
    | none => exact AList.lookup_union_right (AList.lookup_eq_none.1 hw)
    | some v =>
      rw [Option.some_or, ← hw]
      exact AList.lookup_union_left (AList.lookup_isSome.1 (by rw [hw]; rfl))
  · rename_i hc
    rw [AList.lookup_insert_ne hc]

theorem field_put_of_not_changes (h : ¬ Changes face f channel fields) (c k : String) :
    field (put f channel (submitted face fields)) c k = field f c k := by
  rw [field_put]
  split
  · rename_i hc
    subst hc
    cases hw : (submitted face fields).lookup k with
    | none => rfl
    | some v =>
      have hsame : field f c k = some v := by
        by_contra hne
        exact h ⟨⟨k, v⟩, AList.mem_lookup_iff.1 hw, hne⟩
      rw [hsame]
      rfl
  · rfl

/-- What asks for nothing is not submitted. -/
theorem submitted_lookup (h : ∀ raw, fields.lookup key = some raw → asks face key raw = none) :
    (submitted face fields).lookup key = none := by
  have hfold : ∀ (entries : List (Sigma fun _ : String => String)) (acc : GoMap String), acc.lookup key = none →
      (∀ e ∈ entries, e.1 = key → asks face e.1 e.2 = none) →
      (entries.foldl (submit face) acc).lookup key = none := by
    intro entries
    induction entries with
    | nil => exact fun acc hacc _ => hacc
    | cons e entries ih =>
      intro acc hacc hentries
      obtain ⟨he, hrest⟩ := List.forall_mem_cons.1 hentries
      refine ih _ ?_ hrest
      unfold submit
      cases hasks : asks face e.1 e.2 with
      | none => exact hacc
      | some v =>
        have hne : key ≠ e.1 := by
          rintro rfl
          rw [he rfl] at hasks
          cases hasks
        exact (AList.lookup_insert_ne hne).trans hacc
  refine hfold fields.entries ∅ rfl fun e he hkey => ?_
  subst hkey
  exact h e.2 (AList.mem_lookup_iff.2 he)

/-! ### Requests -/

/-- A request stores what it has collected, if anything. -/
theorem update_settings (channel : String) (fields : GoMap String) (o : Outcomes) (world : World) :
    (w.updateChannelFields channel fields o world).1.settings = world.settings ∨
      ∃ ch, world.get channel = some ch ∧
        (w.updateChannelFields channel fields o world).1.settings = put world.settings channel (submitted (ch.face w) fields) := by
  have hanswer : ∀ (ch : Channel) (world : World), (w.answerSave channel ch o world).1.settings = world.settings := by
    intro ch world
    unfold Wiring.answerSave
    cases hrefresh : w.refreshSaved o.refresh world with
    | error p => rfl
    | ok world' =>
      have hsettings : world'.settings = world.settings := by
        unfold Wiring.refreshSaved Wiring.refreshNow at hrefresh
        split at hrefresh
        · split at hrefresh
          · exact (rebuild_built hrefresh).1
          · exact congrArg World.settings (Except.ok.inj hrefresh).symm
        · exact congrArg World.settings (Except.ok.inj hrefresh).symm
      dsimp only
      cases w.channelFields o.readBack world' with
      | error err => exact hsettings
      | ok all => exact hsettings
  unfold Wiring.updateChannelFields
  split
  · exact .inl rfl
  · cases hget : world.get channel with
    | none => exact .inl rfl
    | some ch =>
      dsimp only
      cases hcollect : collect (ch.face w) channel fields with
      | error e => exact .inl rfl
      | ok writes =>
        obtain ⟨rfl, -⟩ := collect_ok hcollect
        unfold setMany
        dsimp only
        by_cases hempty : (submitted (ch.face w) fields).entries = []
        · rw [if_pos hempty]
          exact .inl (hanswer ch world)
        · rw [if_neg hempty]
          cases o.write with
          | done => exact .inr ⟨ch, rfl, hanswer ch _⟩
          | noKey => exact .inl rfl
          | failed => exact .inl rfl
          | lost => exact .inr ⟨ch, rfl, rfl⟩

namespace Standing

/-- An answer is given, and it is an error only where the fields cannot be read. -/
theorem answerSave (h : Standing w world) (hch : ch.Maskable) (channel : String) (o : Outcomes) :
    ∃ world' r, w.answerSave channel ch o world = (world', .ok r) ∧ Standing w world' ∧ world'.settings = world.settings ∧
      ∀ e, r = .error e → o.readBack = false := by
  have hrefresh : ∃ world', w.refreshSaved o.refresh world = .ok world' ∧ world'.settings = world.settings ∧ Standing w world' := by
    unfold Wiring.refreshSaved
    split
    · exact h.refreshNow o.refresh
    · exact ⟨world, rfl, rfl, h⟩
  obtain ⟨world', hworld', hsettings, hstanding⟩ := hrefresh
  unfold Wiring.answerSave
  rw [hworld']
  dsimp only
  cases hread : w.channelFields o.readBack world' with
  | error err =>
    refine ⟨world', _, rfl, hstanding, hsettings, fun e _ => ?_⟩
    unfold Wiring.channelFields at hread
    split at hread
    · cases hread
    · split at hread
      · cases hread
      · rename_i hback
        exact Bool.eq_false_iff.2 hback
  | ok all =>
    have hmaskable : ((world'.get channel).getD ch).Maskable := by
      cases hget : world'.get channel with
      | none => exact hch
      | some ch' => exact hstanding.get_maskable hget
    obtain ⟨face, hface⟩ := Channel.shown_ok_iff.2 hmaskable
    unfold Wiring.channelCard
    rw [hface]
    refine ⟨world', _, rfl, hstanding, hsettings, fun e he => ?_⟩
    cases he

/-- A careful request is answered, and changes no field when the answer is an error. -/
theorem update (h : Standing w world) (hcareful : w.Careful world (.update channel fields o)) :
    ∃ world' r, w.updateChannelFields channel fields o world = (world', .ok r) ∧ Standing w world' ∧
      ∀ e, r = .error e → ∀ c k, field world'.settings c k = field world.settings c k := by
  unfold Wiring.updateChannelFields
  split
  · exact ⟨world, _, rfl, h, fun _ _ _ _ => rfl⟩
  · rename_i hstore
    cases hget : world.get channel with
    | none => exact ⟨world, _, rfl, h, fun _ _ _ _ => rfl⟩
    | some ch =>
      dsimp only
      cases hcollect : collect (ch.face w) channel fields with
      | error e => exact ⟨world, _, rfl, h, fun _ _ _ _ => rfl⟩
      | ok writes =>
        obtain ⟨rfl, haccepts⟩ := collect_ok hcollect
        have hch := h.get_maskable hget
        have hchanges := hcareful (not_not.1 hstore) ch hget haccepts
        have hsame : ¬ Changes (ch.face w) world.settings channel fields → ∀ c k,
            field (put world.settings channel (submitted (ch.face w) fields)) c k = field world.settings c k :=
          fun hno => field_put_of_not_changes hno
        have hstored : (Changes (ch.face w) world.settings channel fields →
            w.Presentable (put world.settings channel (submitted (ch.face w) fields))) →
            Standing w { world with settings := put world.settings channel (submitted (ch.face w) fields) } := by
          intro hput
          refine { channels := h.channels, names := h.names, presentable := ?_ }
          by_cases hch : Changes (ch.face w) world.settings channel fields
          · exact hput hch
          · exact (Wiring.Alike.of_field_eq fun c k => (hsame hch c k).symm).presentable h.presentable
        unfold setMany
        dsimp only
        by_cases hempty : (submitted (ch.face w) fields).entries = []
        · rw [if_pos hempty]
          obtain ⟨world', r, hanswer, hstanding, hsettings, -⟩ := h.answerSave hch channel o
          exact ⟨world', r, hanswer, hstanding, fun _ _ c k => by rw [hsettings]⟩
        · rw [if_neg hempty]
          cases hwrite : o.write with
          | done =>
            obtain ⟨world', r, hanswer, hstanding, hsettings, hread⟩ :=
              (hstored fun hch => ((hchanges hch).2 hwrite).2).answerSave hch channel o
            refine ⟨world', r, hanswer, hstanding, fun e he c k => ?_⟩
            rw [hsettings]
            refine hsame (fun hch => ?_) c k
            have hback := ((hchanges hch).2 hwrite).1
            rw [hread e he] at hback
            cases hback
          | noKey => exact ⟨world, _, rfl, h, fun _ _ _ _ => rfl⟩
          | failed => exact ⟨world, _, rfl, h, fun _ _ _ _ => rfl⟩
          | lost =>
            have hno : ¬ Changes (ch.face w) world.settings channel fields := fun hch => (hchanges hch).1 hwrite
            exact ⟨_, _, rfl, hstored fun hch => absurd hch hno, fun _ _ => hsame hno⟩

/-! ## Runs -/

theorem exec (h : Standing w world) {s : Step} (hcareful : w.Careful world s) :
    ∃ world', w.exec world s = (world', .ok ()) ∧ Standing w world' := by
  cases s with
  | update channel fields o =>
    obtain ⟨world', r, hupdate, hstanding, -⟩ := h.update hcareful
    refine ⟨world', ?_, hstanding⟩
    rw [Wiring.exec, hupdate]
    rfl
  | poll read =>
    obtain ⟨world', hworld', -, hstanding⟩ := h.refreshNow read
    refine ⟨world', ?_, hstanding⟩
    rw [Wiring.exec, hworld']
  | elsewhere settings => exact ⟨_, rfl, { channels := h.channels, names := h.names, presentable := hcareful }⟩

end Standing

theorem boot_standing {settings : Fields} {read : Bool} (hsettings : w.Presentable settings)
    (h : w.newAtomicRegistry settings read = .ok world) : Standing w world := by
  obtain ⟨hstored, hbuilt⟩ := rebuild_built h
  exact { hbuilt with presentable := by rw [hstored]; exact hsettings }

theorem Reaches.standing (h : Reaches w w.Careful world) : Standing w world := by
  induction h with
  | boot hsettings hfallback h => exact boot_standing hsettings h
  | step hworld hok h ih =>
    obtain ⟨world', hexec, hstanding⟩ := ih.exec hok
    rw [h] at hexec
    injection hexec with hworld' _
    exact hworld' ▸ hstanding

/-! ## What holds of every world -/

/-- A secret that is submitted blank, or as the placeholder, or not at all. -/
def Untouched (fields : GoMap String) (key : String) : Prop :=
  ∀ raw, fields.lookup key = some raw → Strings.trimSpace raw = "" ∨ Strings.trimSpace raw = channelSecretSetMarker

/-- The stored secret stays where another one is not submitted. -/
theorem Built.keeps (h : Built w world) (hkey : isSecret channel key) (huntouched : Untouched fields key) (o : Outcomes) :
    field (w.updateChannelFields channel fields o world).1.settings channel key = field world.settings channel key := by
  cases update_settings channel fields o world with
  | inl hsettings => rw [hsettings]
  | inr hput =>
    obtain ⟨ch, hget, hsettings⟩ := hput
    have hschema : (ch.face w).configSchema = some (schemaOf channel) := congrArg some (h.schema hget).2
    have hnone : (submitted (ch.face w) fields).lookup key = none := by
      refine submitted_lookup fun raw hraw => ?_
      refine if_pos ⟨?_, huntouched raw hraw⟩
      obtain ⟨spec, hspec, hkey'⟩ := List.any_eq_true.1 hkey
      obtain ⟨hspecKey, -⟩ := of_decide_eq_true hkey'
      unfold PaymentChannel.spec
      rw [hschema, Option.getD_some]
      cases hfind : (schemaOf channel).reverse.find? fun spec => spec.key = key with
      | none =>
        have hall := List.find?_eq_none.1 hfind spec (List.mem_reverse.2 hspec)
        exact absurd hspecKey (by simpa using hall)
      | some found =>
        have hfound := List.find?_some hfind
        have hfound : found.key = key := of_decide_eq_true hfound
        have hmem := List.mem_reverse.1 (List.mem_of_find?_eq_some hfind)
        simpa using (isSecret_iff hmem).1 (hfound ▸ hkey)
    rw [hsettings, field_put, if_pos rfl, hnone]
    rfl

/-- Requests and views in a world: none panics, a reader is told no secret, secrets stay where they are not submitted, and a request
that fails changes no field. -/
structure Safe (w : Wiring) (world : World) : Prop where
  steps : ∀ s, w.Careful world s → (w.exec world s).2 = .ok ()
  cards : ∀ read, ∃ r, w.channelCards read world = .ok r
  config : ∃ views, world.billingConfig = .ok views
  discreet : ∀ world', Reaches w w.Careful world' → world.Alike w world' →
    (∀ read, w.channelCards read world = w.channelCards read world') ∧ world.billingConfig = world'.billingConfig ∧
      ∀ channel, world.cardOf w channel = world'.cardOf w channel
  kept : ∀ channel key fields o, isSecret channel key → Untouched fields key →
    field (w.updateChannelFields channel fields o world).1.settings channel key = field world.settings channel key
  failed : ∀ channel fields o e, w.Careful world (.update channel fields o) →
    (w.updateChannelFields channel fields o world).2 = .ok (.error e) →
      ∀ c k, field (w.updateChannelFields channel fields o world).1.settings c k = field world.settings c k

/-- Processes start, all worlds that runs reach are safe, and the mask that is told of a secret is also that of another one. -/
theorem saved_fields_safe (w : Wiring) :
    (∀ settings read, w.Presentable settings → (read = false → w.Presentable ∅) →
      ∃ world, w.newAtomicRegistry settings read = .ok world) ∧
    (∀ world, Reaches w w.Careful world → Safe w world) ∧
    ∀ channel key v, v ≠ "" → Strings.trimSpace v = v →
      ∃ v', v' ≠ v ∧ v' ≠ "" ∧ Strings.trimSpace v' = v' ∧ secretMask channel key v' = secretMask channel key v := by
  refine ⟨fun settings read hsettings hfallback => ?_, fun world hworld => ?_, fun channel key v => secretMask_ambiguous channel key⟩
  · refine rebuild_ok_iff.2 ?_
    cases read with
    | false => exact hfallback rfl
    | true => exact hsettings
  · have hstanding := hworld.standing
    refine ⟨fun s hs => ?_, hstanding.channelCards, hstanding.billingConfig, fun world' hworld' hsame => ?_,
      fun channel key fields o hkey huntouched => hstanding.keeps hkey huntouched o, fun channel fields o e hcareful he c k => ?_⟩
    · obtain ⟨world', hexec, -⟩ := hstanding.exec hs
      rw [hexec]
    · have hbuilt := hstanding.toBuilt
      have hbuilt' := hworld'.standing.toBuilt
      exact ⟨channelCards_alike hbuilt hbuilt' hsame, billingConfig_alike hbuilt hbuilt' hsame, cardOf_alike hbuilt hbuilt' hsame⟩
    · obtain ⟨world', r, hupdate, -, hfailed⟩ := hstanding.update hcareful
      rw [hupdate] at he ⊢
      exact hfailed e (Except.ok.inj he) c k

/-! ### Short ids -/

/-- Nothing comes from the environment, and no key can be parsed. -/
def plainWiring : Wiring where
  getenv _ := ""
  parsePrivateKey _ := .error "waffo: private key is not PEM-decodable"
  parsePublicKey _ := .error "waffo: webhook public key is not PEM-decodable"

/-- What `NewAtomicRegistry` leaves where nothing is saved. -/
def plainWorld : World where
  settings := ∅
  channels := plainWiring.build ∅
  names := ["manual"]
  built := ∅

def paypalFields (clientID : String) : GoMap String :=
  [⟨"client_id", clientID⟩, ⟨"client_secret", "EGnHDxD_qRPdaLdZz8iCr8N7"⟩, ⟨"webhook_id", "WH-1"⟩, ⟨"mode", "test"⟩].toAList

theorem presentable_empty : plainWiring.Presentable ∅ := by decide

theorem boot_plain : plainWiring.newAtomicRegistry ∅ true = .ok plainWorld := by
  have hnames : (plainWiring.orderedNames (plainWiring.build ∅)).toOption = some ["manual"] := by decide
  unfold Wiring.newAtomicRegistry Wiring.rebuild
  dsimp only
  cases h : plainWiring.orderedNames (plainWiring.build ∅) with
  | error p =>
    rw [h] at hnames
    cases hnames
  | ok names =>
    rw [h] at hnames
    obtain rfl : names = ["manual"] := Option.some.inj hnames
    rw [if_pos rfl, h]
    rfl

theorem get_paypal : plainWorld.get "paypal" = some Paypal.unconfiguredStub := by decide

/-- A long id is saved. -/
theorem saved_fields_safe_paypal : ∃ world, Reaches plainWiring plainWiring.Careful world ∧
    field world.settings "paypal" "client_id" = some "AZDxjDScFpQtjWTO" ∧ Safe plainWiring world := by
  have hboot : Reaches plainWiring plainWiring.Careful plainWorld := .boot presentable_empty (fun _ => presentable_empty) boot_plain
  have hcareful : plainWiring.Careful plainWorld (.update "paypal" (paypalFields "AZDxjDScFpQtjWTO") {}) := by
    intro _ ch hget _ _
    obtain rfl : Paypal.unconfiguredStub = ch := Option.some.inj (get_paypal.symm.trans hget)
    refine ⟨by decide, fun _ => ⟨rfl, ?_⟩⟩
    decide
  obtain ⟨world, hexec, -⟩ := hboot.standing.exec hcareful
  have hworld := hboot.step hcareful hexec
  have hfield : field (plainWiring.exec plainWorld (.update "paypal" (paypalFields "AZDxjDScFpQtjWTO") {})).1.settings
      "paypal" "client_id" = some "AZDxjDScFpQtjWTO" := by decide
  rw [hexec] at hfield
  exact ⟨world, hworld, hfield, (saved_fields_safe plainWiring).2.1 world hworld⟩

def panics {α : Type} : Go α → Bool
  | .error _ => true
  | .ok _ => false

def fails {α : Type} : Go (Except Registry.Err α) → Bool
  | .ok (.error _) => true
  | _ => false

/-- An id of two bytes is stored by a request that panics, and an id is stored by one that fails. -/
theorem short_client_id : Reaches plainWiring (fun _ _ => True) plainWorld ∧ field plainWorld.settings "paypal" "client_id" = none ∧
    (panics (plainWiring.updateChannelFields "paypal" (paypalFields "AZ") {} plainWorld).2 ∧
      field (plainWiring.updateChannelFields "paypal" (paypalFields "AZ") {} plainWorld).1.settings "paypal" "client_id" = some "AZ" ∧
      panics (plainWiring.rebuild (plainWiring.updateChannelFields "paypal" (paypalFields "AZ") {} plainWorld).1.settings plainWorld)) ∧
    fails (plainWiring.updateChannelFields "paypal" (paypalFields "AZDxjDScFpQtjWTO") { readBack := false } plainWorld).2 ∧
      field (plainWiring.updateChannelFields "paypal" (paypalFields "AZDxjDScFpQtjWTO") { readBack := false } plainWorld).1.settings
        "paypal" "client_id" = some "AZDxjDScFpQtjWTO" := by
  refine ⟨.boot presentable_empty (fun _ => presentable_empty) boot_plain, rfl, ?_⟩
  decide

end Ploykit.Billing.Adapters

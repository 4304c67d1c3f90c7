import Ploykit.Lib.Checks
import Ploykit.Settings.Values

/-!
# The normal form

`Validate`, `Normalize` and the readers agree on each key. Trimming is part of the normal form of every key, and what it does to a
value has to be harmless there: the accepted characters of host names, domains and verification tokens are no spaces, numbers and
JSON are read without the spaces around them, and a mail account's texts are trimmed.
-/

namespace Ploykit.Settings

open Text Lib.Checks

variable {other : Char → Char} {key : Key} {v : Text}

theorem check_ok {c : Bool} {msg : String} : check c msg = .ok () ↔ c = true := by
  cases c with
  | false => exact ⟨fun h => (by cases h), fun h => (by cases h)⟩
  | true => exact ⟨fun _ => rfl, fun _ => rfl⟩

theorem checkAll_ok {ok : Text → Bool} {msg : Text → String} {ps : List Text} :
    checkAll ok msg ps = .ok () ↔ ∀ p ∈ ps, ok p = true := by
  induction ps with
  | nil => exact ⟨fun _ p hp => (List.not_mem_nil hp).elim, fun _ => rfl⟩
  | cons p ps ih =>
    rw [List.forall_mem_cons, ← ih, checkAll]
    split
    · rename_i hp
      exact ⟨fun h => ⟨hp, h⟩, And.right⟩
    · rename_i hp
      exact ⟨fun h => (by cases h), fun h => absurd h.1 hp⟩

/-! ## Characters -/

theorem isSpace_of_hostCharset {c : Char} (h : (c.isAlphanum || c = '.' || c = '-') = true) : Strings.isSpace c = false := by
  rcases Bool.or_eq_true_iff.1 h with h | h
  · rcases Bool.or_eq_true_iff.1 h with h | h
    · have hbounds := toNat_of_isAlphanum h
      exact isSpace_of_visible (by omega) (by omega)
    · exact of_decide_eq_true h ▸ (by decide)
  · exact of_decide_eq_true h ▸ (by decide)

/-- The characters of an accepted domain are no spaces, no commas and no capital letters. -/
theorem plain_of_domainOK {d : Text} (h : domainOK d = true) {c : Char} (hc : c ∈ d) :
    Strings.isSpace c = false ∧ c ≠ ',' ∧ ToLower other c = c := by
  have hcharset := List.all_eq_true.1 (Bool.and_eq_true_iff.1 h).2 c hc
  have hlower : ∀ n ≤ 0x7A, 0x2D ≤ n → ¬ (0x41 ≤ n ∧ n ≤ 0x5A) → (Char.ofNat n).toLower = Char.ofNat n := by decide
  have hbounds : (0x2D ≤ c.toNat ∧ c.toNat ≤ 0x7A) ∧ ¬ (0x41 ≤ c.toNat ∧ c.toNat ≤ 0x5A) := by
    rcases Bool.or_eq_true_iff.1 hcharset with h | h
    · rcases Bool.or_eq_true_iff.1 h with h | h
      · rcases Bool.or_eq_true_iff.1 h with h | h
        · have hletter : 0x61 ≤ c.toNat ∧ c.toNat ≤ 0x7A := (Bool.and_eq_true_iff.1 h).imp of_decide_eq_true of_decide_eq_true
          omega
        · have hdigit : 0x30 ≤ c.toNat ∧ c.toNat ≤ 0x39 := (Bool.and_eq_true_iff.1 h).imp of_decide_eq_true of_decide_eq_true
          omega
      · exact of_decide_eq_true h ▸ (by decide)
    · exact of_decide_eq_true h ▸ (by decide)
  obtain ⟨⟨hlow, hhigh⟩, hcapital⟩ := hbounds
  refine ⟨isSpace_of_visible (by omega) (by omega), ?_, ?_⟩
  · rintro rfl
    exact absurd hlow (by decide)
  · have hascii : c.val < 0x80 := UInt32.lt_iff_toNat_lt.2 (Nat.lt_of_le_of_lt hhigh (by decide))
    rw [ToLower, if_pos hascii]
    exact Char.ofNat_toNat c ▸ hlower c.toNat hhigh hlow hcapital

/-! ## Lists -/

theorem splitIPAllowlist_join (csv : Text) : SplitIPAllowlist (join (SplitIPAllowlist csv)) = SplitIPAllowlist csv := by
  refine splitSet_join (by decide) (nodup_splitSet TrimSpace csv) fun t ht => ?_
  obtain ⟨hne, part, hcomma, rfl⟩ := mem_splitSet ht
  exact ⟨hne, fun h => hcomma (mem_of_mem_trim h), trim_trim Strings.isSpace part⟩

theorem splitDomains_join {csv : Text} (h : ∀ d ∈ SplitDomains other csv, domainOK d = true) :
    SplitDomains other (join (SplitDomains other csv)) = SplitDomains other csv := by
  refine splitSet_join rfl (nodup_splitSet _ csv) fun d hd => ?_
  have hplain : ∀ c ∈ d, Strings.isSpace c = false ∧ c ≠ ',' ∧ ToLower other c = c := fun c hc => plain_of_domainOK (h d hd) hc
  have htrimmed : TrimSpace d = d := trim_self (trimmed_of_forall fun c hc => (hplain c hc).1)
  refine ⟨(mem_splitSet hd).1, fun hcomma => (hplain _ hcomma).2.1 rfl, ?_⟩
  rw [htrimmed]
  exact (List.map_congr_left fun c hc => (hplain c hc).2.2).trans (List.map_id d)

/-! ## The verification tag -/

/-- The name and the content that a value stands for, from the tag or from the pair. -/
def VerificationPair (raw : Text) : Option (Text × Text) :=
  ((matchTag (TrimSpace raw)).or (cutBar (TrimSpace raw))).map fun m => (TrimSpace m.1, TrimSpace m.2)

theorem normalizeVerificationMeta_eq (raw : Text) :
    normalizeVerificationMeta raw = if TrimSpace raw = [] then some [] else (VerificationPair raw).map fun m => m.1 ++ '|' :: m.2 := by
  simp only [normalizeVerificationMeta, VerificationPair]
  congr 1
  cases matchTag (TrimSpace raw) with
  | some m => rfl
  | none =>
    cases cutBar (TrimSpace raw) with
    | some m => rfl
    | none => rfl

theorem verificationPair_nil {raw : Text} (h : TrimSpace raw = []) : VerificationPair raw = none := by
  rw [VerificationPair, h]
  decide

theorem cutBar_eq {s name content : Text} : cutBar s = some (name, content) ↔ '|' ∉ name ∧ s = name ++ '|' :: content := by
  have hplain : ∀ {name content : Text}, '|' ∉ name → cutBar (name ++ '|' :: content) = some (name, content) := by
    intro name content hname
    have hbar : ∀ c ∈ name, decide (c ≠ '|') = true := fun c hc => decide_eq_true fun h => hname (h ▸ hc)
    rw [cutBar, if_pos (List.mem_append_right _ List.mem_cons_self), List.takeWhile_append_of_pos hbar,
      List.dropWhile_append_of_pos hbar]
    simp
  constructor
  · intro h
    have hmem : '|' ∈ s := by
      by_contra hno
      rw [cutBar, if_neg hno] at h
      cases h
    obtain ⟨before, after, rfl, hbefore⟩ := List.eq_append_cons_of_mem hmem
    rw [hplain hbefore] at h
    cases h
    exact ⟨hbefore, rfl⟩
  · rintro ⟨hname, rfl⟩
    exact hplain hname

theorem verificationCharset_plain {c : Char} (h : c ∈ verificationCharset) :
    Strings.isSpace c = false ∧ reSpace c = false ∧ c ≠ '|' ∧ c.toLower ≠ '<' := by
  have hall : (verificationCharset.all fun c => !Strings.isSpace c && !reSpace c && c ≠ '|' && c.toLower ≠ '<') = true := by decide
  simpa [and_assoc] using List.all_eq_true.1 hall c h

theorem verificationTokenOK_iff {s : Text} : verificationTokenOK s = true ↔ s ≠ [] ∧ ∀ c ∈ s, c ∈ verificationCharset := by
  simp [verificationTokenOK]

theorem parseVerificationMeta_eq {stored : Text} {pair : Text × Text} : ParseVerificationMeta stored = .ok pair ↔
    cutBar stored = some pair ∧ (1 ≤ size pair.1 ∧ size pair.1 ≤ 64) ∧ (1 ≤ size pair.2 ∧ size pair.2 ≤ 256) ∧
      verificationTokenOK pair.1 = true ∧ verificationTokenOK pair.2 = true := by
  unfold ParseVerificationMeta
  cases cutBar stored with
  | none => simp
  | some m =>
    simp only [seq_ok, check_ok, Bool.and_eq_true, decide_eq_true_eq, Option.some.injEq]
    constructor
    · rintro ⟨hname, hcontent, hn, hc, hm⟩
      cases hm
      exact ⟨rfl, hname, hcontent, hn, hc⟩
    · rintro ⟨rfl, hname, hcontent, hn, hc⟩
      exact ⟨hname, hcontent, hn, hc, rfl⟩

/-- A pair of tokens is its own normal form. -/
theorem normalizeVerificationMeta_pair {name content : Text} (hname : verificationTokenOK name = true)
    (hcontent : verificationTokenOK content = true) :
    normalizeVerificationMeta (name ++ '|' :: content) = some (name ++ '|' :: content) := by
  obtain ⟨hne, hname⟩ := verificationTokenOK_iff.1 hname
  obtain ⟨-, hcontent⟩ := verificationTokenOK_iff.1 hcontent
  have hspace : ∀ c ∈ name ++ '|' :: content, Strings.isSpace c = false := by
    intro c hc
    rcases List.mem_append.1 hc with hc | hc
    · exact (verificationCharset_plain (hname c hc)).1
    · rcases List.mem_cons.1 hc with rfl | hc
      · decide
      · exact (verificationCharset_plain (hcontent c hc)).1
  have htrim : ∀ {s : Text}, (∀ c ∈ s, c ∈ verificationCharset) → TrimSpace s = s :=
    fun hs => trim_self (trimmed_of_forall fun c hc => (verificationCharset_plain (hs c hc)).1)
  have hwhole : TrimSpace (name ++ '|' :: content) = name ++ '|' :: content := trim_self (trimmed_of_forall hspace)
  have hcut : cutBar (name ++ '|' :: content) = some (name, content) :=
    cutBar_eq.2 ⟨fun h => (verificationCharset_plain (hname _ h)).2.2.1 rfl, rfl⟩
  have htag : matchTag (name ++ '|' :: content) = none := by
    obtain ⟨c, name, rfl⟩ := List.exists_cons_of_ne_nil hne
    obtain ⟨-, hre, -, hopen⟩ := verificationCharset_plain (hname c List.mem_cons_self)
    have hliteral : afterLiteral "<meta".toList (c :: (name ++ '|' :: content)) = none := by
      refine if_neg fun h => hopen ?_
      exact (List.cons.inj h).1
    rw [matchTag, List.cons_append, List.dropWhile_cons_of_neg (by rw [hre]; exact Bool.false_ne_true), hliteral]
    rfl
  rw [normalizeVerificationMeta_eq, VerificationPair, hwhole, htag, hcut, if_neg (by simp)]
  simp only [Option.none_or, Option.map_some, htrim hname, htrim hcontent]

/-- Texts without bars are what stands beside the only bar. -/
theorem bar_inj {name content l r : Text} (hname : '|' ∉ name) (hcontent : '|' ∉ content)
    (h : name ++ '|' :: content = l ++ '|' :: r) : name = l ∧ content = r := by
  obtain ⟨t, rfl, ht⟩ | ⟨t, rfl, ht⟩ := List.append_eq_append_iff.1 h
  · cases t with
    | nil => exact ⟨(List.append_nil name).symm, (List.cons.inj ht).2⟩
    | cons c t =>
      refine (hcontent ?_).elim
      rw [(List.cons.inj ht).2]
      exact List.mem_append_right t List.mem_cons_self
  · cases t with
    | nil => exact ⟨List.append_nil l, ((List.cons.inj ht).2).symm⟩
    | cons c t =>
      refine (hname (List.mem_append_right l ?_)).elim
      rw [← (List.cons.inj ht).1]
      exact List.mem_cons_self

/-- An accepted value stands for nothing or for a pair of tokens, which is what its normal form is read as. -/
theorem validateVerificationMeta_ok {raw : Text} (h : validateVerificationMeta raw = .ok ()) :
    VerificationPair raw = none ∧ normalizeVerificationMeta raw = some [] ∨
      ∃ pair, VerificationPair raw = some pair ∧ normalizeVerificationMeta raw = some (pair.1 ++ '|' :: pair.2) ∧
        ParseVerificationMeta (pair.1 ++ '|' :: pair.2) = .ok pair := by
  have heq := normalizeVerificationMeta_eq raw
  by_cases hnil : TrimSpace raw = []
  · exact .inl ⟨verificationPair_nil hnil, heq.trans (if_pos hnil)⟩
  · rw [if_neg hnil] at heq
    cases hpair : VerificationPair raw with
    | none =>
      rw [validateVerificationMeta, heq, hpair] at h
      cases h
    | some pair =>
      rw [hpair, Option.map_some] at heq
      rw [validateVerificationMeta, heq] at h
      simp only [List.append_eq_nil_iff, List.cons_ne_nil, and_false, if_false] at h
      refine .inr ⟨pair, rfl, heq, ?_⟩
      cases hparse : ParseVerificationMeta (pair.1 ++ '|' :: pair.2) with
      | error msg =>
        rw [hparse] at h
        cases h
      | ok parsed =>
        obtain ⟨hcut, -, -, -, hcontent⟩ := parseVerificationMeta_eq.1 hparse
        obtain ⟨hname, hwhole⟩ := cutBar_eq.1 hcut
        have hbar : '|' ∉ parsed.2 := fun hmem =>
          (verificationCharset_plain ((verificationTokenOK_iff.1 hcontent).2 _ hmem)).2.2.1 rfl
        obtain ⟨hleft, hright⟩ := bar_inj hname hbar hwhole.symm
        rw [Prod.ext hleft hright]

theorem validateVerificationMeta_pair {pair : Text × Text} (h : ParseVerificationMeta (pair.1 ++ '|' :: pair.2) = .ok pair) :
    normalizeVerificationMeta (pair.1 ++ '|' :: pair.2) = some (pair.1 ++ '|' :: pair.2) ∧
      validateVerificationMeta (pair.1 ++ '|' :: pair.2) = .ok () := by
  obtain ⟨-, -, -, hname, hcontent⟩ := parseVerificationMeta_eq.1 h
  have hnorm := normalizeVerificationMeta_pair hname hcontent
  refine ⟨hnorm, ?_⟩
  rw [validateVerificationMeta, hnorm]
  simp only [List.append_eq_nil_iff, List.cons_ne_nil, and_false, if_false, h]
  rfl

/-! ## The normal form of each key -/

/-- Texts of an accepted host name are not trimmed. -/
theorem trimSpace_host (h : Validate other .smtpHost v = .ok ()) : TrimSpace v = v := by
  have hcharset := check_ok.1 h
  rcases Bool.or_eq_true_iff.1 hcharset with hnil | hhost
  · rw [of_decide_eq_true hnil]
    rfl
  · refine trim_self (trimmed_of_forall fun c hc => isSpace_of_hostCharset ?_)
    exact List.all_eq_true.1 (Bool.and_eq_true_iff.1 hhost).2 c hc

/-- The values of a flag or a kind are trimmed. -/
theorem trimSpace_choice {a b : Text} (ha : TrimSpace a = a) (hb : TrimSpace b = b) (h : (v = a || v = b) = true) : TrimSpace v = v := by
  rcases Bool.or_eq_true_iff.1 h with h | h
  · rwa [of_decide_eq_true h]
  · rwa [of_decide_eq_true h]

theorem validate_of_trimSpace (htrim : TrimSpace v = v) (h : Validate other key v = .ok ()) : Validate other key (TrimSpace v) = .ok () := by
  rwa [htrim]

theorem any_trimSpace {ok : Int → Bool} (h : (Atoi (TrimSpace v)).any ok = true) : (Atoi (TrimSpace (TrimSpace v))).any ok = true := by
  rwa [TrimSpace, TrimSpace, trim_trim]

theorem all_trimSpace {p : Char → Bool} (h : v.all p = true) : (TrimSpace v).all p = true :=
  List.all_eq_true.2 fun c hc => List.all_eq_true.1 h c (mem_of_mem_trim hc)

theorem validate_normalize_smtpPort (h : Validate other .smtpPort v = .ok ()) : Validate other .smtpPort (TrimSpace v) = .ok () := by
  rcases Bool.or_eq_true_iff.1 (check_ok.1 h) with hnil | hport
  · exact validate_of_trimSpace (by rw [of_decide_eq_true hnil]; rfl) h
  · exact check_ok.2 (Bool.or_eq_true_iff.2 (.inr (any_trimSpace hport)))

theorem validate_normalize_smtpUser (h : Validate other .smtpUser v = .ok ()) : Validate other .smtpUser (TrimSpace v) = .ok () := by
  obtain ⟨hsize, hcharset⟩ := Bool.and_eq_true_iff.1 (check_ok.1 h)
  refine check_ok.2 (Bool.and_eq_true_iff.2 ⟨decide_eq_true ?_, all_trimSpace hcharset⟩)
  exact (size_trim_le _ v).trans (of_decide_eq_true hsize)

theorem validate_normalize_shellNavHidden (h : Validate other .shellNavHidden v = .ok ()) :
    Validate other .shellNavHidden (TrimSpace v) = .ok () := by
  by_cases hnil : v = []
  · exact validate_of_trimSpace (by rw [hnil]; rfl) h
  · simp only [Validate, if_neg hnil] at h ⊢
    cases hpaths : JsonStrings.Unmarshal v with
    | none =>
      rw [hpaths] at h
      cases h
    | some paths =>
      rw [hpaths] at h
      rw [JsonStrings.unmarshal_trimSpace hpaths]
      split
      · rfl
      · exact h

theorem validate_normalize_other {k : String} (h : Validate other (.other k) v = .ok ()) : Validate other (.other k) (TrimSpace v) = .ok () := by
  simp only [Validate] at h ⊢
  split at h
  · rename_i hchannel
    obtain ⟨hshape, hsize⟩ := seq_ok.1 h
    rw [if_pos hchannel]
    refine seq_ok.2 ⟨hshape, check_ok.2 (decide_eq_true ?_)⟩
    exact (size_trim_le _ v).trans (of_decide_eq_true (check_ok.1 hsize))
  · cases h

theorem validate_normalize_siteVerificationMeta (h : Validate other .siteVerificationMeta v = .ok ()) :
    Validate other .siteVerificationMeta (Normalize other .siteVerificationMeta v) = .ok () := by
  rcases validateVerificationMeta_ok h with ⟨-, hnorm⟩ | ⟨pair, -, hnorm, hparse⟩
  · rw [Normalize, hnorm]
    rfl
  · rw [Normalize, hnorm]
    exact (validateVerificationMeta_pair hparse).2

/-- What is accepted is accepted in its normal form. -/
theorem validate_normalize (h : Validate other key v = .ok ()) (hfrom : key = .smtpFrom → Trimmed Strings.isSpace v) :
    Validate other key (Normalize other key v) = .ok () := by
  cases key with
  | bannerText => exact check_ok.2 (decide_eq_true ((length_trim_le _ v).trans (of_decide_eq_true (check_ok.1 h))))
  | bannerKind => exact validate_of_trimSpace (trimSpace_choice (by decide) (by decide) (check_ok.1 h)) h
  | maintenanceMode => exact validate_of_trimSpace (trimSpace_choice (by decide) (by decide) (check_ok.1 h)) h
  | allowSignup => exact validate_of_trimSpace (trimSpace_choice (by decide) (by decide) (check_ok.1 h)) h
  | allowedDomains =>
    have hdomains := checkAll_ok.1 h
    refine checkAll_ok.2 ?_
    rw [Normalize, splitDomains_join hdomains]
    exact hdomains
  | rateLimitPerUserPerMin => exact check_ok.2 (any_trimSpace (check_ok.1 h))
  | rateLimitPerIPPerMin => exact check_ok.2 (any_trimSpace (check_ok.1 h))
  | rateLimitAllowlist =>
    refine checkAll_ok.2 ?_
    rw [Normalize, splitIPAllowlist_join]
    exact checkAll_ok.1 h
  | smtpHost => exact validate_of_trimSpace (trimSpace_host h) h
  | smtpPort => exact validate_normalize_smtpPort h
  | smtpUser => exact validate_normalize_smtpUser h
  | smtpPass => exact check_ok.2 (decide_eq_true ((size_trim_le _ v).trans (of_decide_eq_true (check_ok.1 h))))
  | smtpFrom => exact validate_of_trimSpace (trim_self (hfrom rfl)) h
  | siteVerificationMeta => exact validate_normalize_siteVerificationMeta h
  | shellNavHidden => exact validate_normalize_shellNavHidden h
  | other k => exact validate_normalize_other h

/-- The normal form of an accepted value is its own normal form. -/
theorem normalize_normalize (h : Validate other key v = .ok ()) : Normalize other key (Normalize other key v) = Normalize other key v := by
  cases key with
  | allowedDomains => exact congrArg join (splitDomains_join (checkAll_ok.1 h))
  | rateLimitAllowlist => exact congrArg join (splitIPAllowlist_join v)
  | siteVerificationMeta =>
    rcases validateVerificationMeta_ok h with ⟨-, hnorm⟩ | ⟨pair, -, hnorm, hparse⟩
    · have hnil : Normalize other .siteVerificationMeta v = [] := congrArg (Option.getD · (TrimSpace v)) hnorm
      rw [hnil]
      rfl
    · have hpair : Normalize other .siteVerificationMeta v = pair.1 ++ '|' :: pair.2 := congrArg (Option.getD · (TrimSpace v)) hnorm
      rw [hpair, Normalize, (validateVerificationMeta_pair hparse).1]
      rfl
  | _ => exact trim_trim Strings.isSpace v

/-! ## What readers get -/

/-- A sealer gives back what it sealed. -/
def Store.Lossless (s : Store) : Prop := ∀ sealer ∈ s.sealer, ∀ v sealed, sealer.Seal v = some sealed → sealer.Unseal sealed = some v

/-- The stores that accepted values lead to, with the value last given for each key. -/
inductive Administered (other : Char → Char) : Store → (Key → Option Text) → Prop where
  | fresh {s : Store} (hrows : ∀ key, s.rows key = none) : Administered other s fun _ => none
  | saved {s s' : Store} {raw : Key → Option Text} {key : Key} {v : Text} (hraw : Administered other s raw)
      (hput : s.put other key v = .ok s') : Administered other s' (Function.update raw key (some v))

/-- The store whose readers are given the values as they are. -/
def Store.asGiven (s : Store) (raw : Key → Option Text) : Store :=
  { sealer := none, rows := fun _ => none, fallback := fun key => (raw key).getD (s.fallback key) }

/-- The texts of a mail account without the spaces around them. -/
def trimAccount (raw : Key → Option Text) : Key → Option Text
  | .smtpUser => (raw .smtpUser).map TrimSpace
  | .smtpPass => (raw .smtpPass).map TrimSpace
  | .smtpFrom => (raw .smtpFrom).map TrimSpace
  | key => raw key

section reading

variable {s s' : Store} {raw : Key → Option Text}

theorem sealValue_ok {sealed : Text} (h : s.sealValue key v = .ok sealed) :
    IsSensitive key = false ∧ sealed = v ∨
      IsSensitive key = true ∧ ∃ sealer, s.sealer = some sealer ∧ sealer.Seal v = some sealed := by
  unfold Store.sealValue at h
  split at h
  · rename_i hplain
    exact .inl ⟨hplain, (Except.ok.inj h).symm⟩
  · rename_i hsensitive
    refine .inr ⟨eq_true_of_ne_false hsensitive, ?_⟩
    cases hsealer : s.sealer with
    | none =>
      rw [hsealer] at h
      cases h
    | some sealer =>
      simp only [hsealer] at h
      cases hseal : sealer.Seal v with
      | none =>
        rw [hseal] at h
        cases h
      | some t =>
        rw [hseal] at h
        exact ⟨sealer, rfl, hseal.trans (congrArg some (Except.ok.inj h))⟩

/-- A value is saved when it is accepted and its normal form can be sealed. -/
theorem put_eq (h : s.put other key v = .ok s') : Validate other key v = .ok () ∧
    ∃ sealed, s.sealValue key (Normalize other key v) = .ok sealed ∧ s' = { s with rows := Function.update s.rows key (some sealed) } := by
  unfold Store.put at h
  cases hvalid : Validate other key v with
  | error msg =>
    rw [hvalid] at h
    cases h
  | ok u =>
    rw [hvalid] at h
    cases hsealed : s.sealValue key (Normalize other key v) with
    | error err =>
      simp only [Store.Set, hsealed] at h
      cases h
    | ok sealed =>
      simp only [Store.Set, hsealed] at h
      exact ⟨rfl, sealed, rfl, (Except.ok.inj h).symm⟩

/-- A value saved is what the store has for its key afterwards. -/
theorem value_put (hlossless : s.Lossless) (h : s.put other key v = .ok s') :
    s'.value key = .ok (Normalize other key v) ∧ ∀ k ≠ key, s'.value k = s.value k := by
  obtain ⟨-, sealed, hsealed, rfl⟩ := put_eq h
  constructor
  · simp only [Store.value, Function.update_self]
    rcases sealValue_ok hsealed with ⟨hplain, rfl⟩ | ⟨hsensitive, sealer, hsealer, hseal⟩
    · exact if_pos hplain
    · have hunseal := hlossless sealer hsealer _ _ hseal
      simp only [hsensitive, Bool.true_eq_false, if_false, hsealer, hunseal]
  · intro k hk
    simp only [Store.value, Function.update_of_ne hk]

/-- The store holds the normal form of the value last given for a key. -/
theorem Administered.value (hraw : Administered other s raw) (hlossless : s.Lossless) (key : Key) :
    s.value key = .ok ((raw key).elim (s.fallback key) (Normalize other key)) ∧ ∀ v, raw key = some v → Validate other key v = .ok () := by
  induction hraw with
  | fresh hrows => exact ⟨by rw [Store.value, hrows]; rfl, fun v h => by cases h⟩
  | @saved s s' raw k v hraw hput ih =>
    obtain ⟨hvalid, sealed, -, hs'⟩ := put_eq hput
    have hbefore : s.Lossless := fun sealer h => hlossless sealer (hs' ▸ h)
    have hfallback : s'.fallback = s.fallback := hs' ▸ rfl
    obtain ⟨hvalue, hothers⟩ := value_put hbefore hput
    by_cases hk : key = k
    · subst hk
      rw [Function.update_self]
      exact ⟨hvalue, fun w hw => Option.some.inj hw ▸ hvalid⟩
    · rw [Function.update_of_ne hk, hothers key hk, hfallback]
      exact ih hbefore

/-- A reader that reads an accepted value and its normal form alike reads what was given. -/
theorem Administered.meaning {α : Type} {f : Text → α} (hraw : Administered other s raw) (hlossless : s.Lossless) (key : Key)
    (hf : ∀ v, Validate other key v = .ok () → f (Normalize other key v) = f v) :
    ∃ w, s.value key = .ok w ∧ f w = f ((raw key).getD (s.fallback key)) := by
  obtain ⟨hvalue, hvalid⟩ := hraw.value hlossless key
  refine ⟨_, hvalue, ?_⟩
  cases hkey : raw key with
  | none => rfl
  | some v => exact hf v (hvalid v hkey)

theorem registrationGate_asGiven (hraw : Administered other s raw) (hlossless : s.Lossless) :
    s.RegistrationGate other = (s.asGiven raw).RegistrationGate other := by
  obtain ⟨v, hv, hsignup⟩ := hraw.meaning hlossless .allowSignup (f := id) fun v h =>
    trimSpace_choice (by decide) (by decide) (check_ok.1 h)
  obtain ⟨d, hd, hdomains⟩ := hraw.meaning hlossless .allowedDomains (f := SplitDomains other)
    fun v h => splitDomains_join (checkAll_ok.1 h)
  calc s.RegistrationGate other
      = .ok (decide (id v = FlagOn), SplitDomains other d) := by rw [Store.RegistrationGate, hv, hd]; rfl
    _ = (s.asGiven raw).RegistrationGate other := by rw [hsignup, hdomains]; rfl

theorem rateLimits_asGiven (hraw : Administered other s raw) (hlossless : s.Lossless) : s.RateLimits = (s.asGiven raw).RateLimits := by
  have hnumber : ∀ def' v, parsePerMin (TrimSpace v) def' = parsePerMin v def' := fun def' v => by
    rw [parsePerMin, parsePerMin, TrimSpace, TrimSpace, trim_trim]
  obtain ⟨u, hu, huser⟩ := hraw.meaning hlossless .rateLimitPerUserPerMin (f := (parsePerMin · 0)) fun v _ => hnumber 0 v
  obtain ⟨i, hi, hip⟩ := hraw.meaning hlossless .rateLimitPerIPPerMin (f := (parsePerMin · 30)) fun v _ => hnumber 30 v
  obtain ⟨a, ha, hallowlist⟩ := hraw.meaning hlossless .rateLimitAllowlist (f := SplitIPAllowlist)
    fun v _ => splitIPAllowlist_join v
  calc s.RateLimits
      = .ok (parsePerMin u 0, parsePerMin i 30, SplitIPAllowlist a) := by rw [Store.RateLimits, hu, hi, ha]; rfl
    _ = (s.asGiven raw).RateLimits := by rw [huser, hip, hallowlist]; rfl

/-- A text of the mail account is read without the spaces around it. -/
theorem Administered.account (hraw : Administered other s raw) (hlossless : s.Lossless) (key : Key)
    (hnorm : ∀ v, Normalize other key v = TrimSpace v) : s.value key = .ok (((raw key).map TrimSpace).getD (s.fallback key)) := by
  rw [(hraw.value hlossless key).1]
  cases raw key with
  | none => rfl
  | some v => exact congrArg Except.ok (hnorm v)

theorem smtpConfig_asGiven (hraw : Administered other s raw) (hlossless : s.Lossless) :
    s.SMTPConfig = (s.asGiven (trimAccount raw)).SMTPConfig := by
  obtain ⟨host, hhost, hsame⟩ := hraw.meaning hlossless .smtpHost (f := id) fun v h => trimSpace_host h
  have htrim : ∀ v, parseSMTPPort (TrimSpace v) = parseSMTPPort v := fun v => by
    rw [parseSMTPPort, parseSMTPPort, TrimSpace, TrimSpace, trim_trim]
  obtain ⟨port, hport, hnumber⟩ := hraw.meaning hlossless .smtpPort (f := parseSMTPPort) fun v _ => htrim v
  have huser := hraw.account hlossless .smtpUser fun v => rfl
  have hpass := hraw.account hlossless .smtpPass fun v => rfl
  have hfrom := hraw.account hlossless .smtpFrom fun v => rfl
  calc s.SMTPConfig
      = .ok ⟨id host, parseSMTPPort port, _, _, _⟩ := by rw [Store.SMTPConfig, hhost, hport, huser, hpass, hfrom]; rfl
    _ = (s.asGiven (trimAccount raw)).SMTPConfig := by rw [hsame, hnumber]; rfl

/-- The stored tag is read as the name and the content that the value stands for. -/
theorem siteVerificationMeta_pair (hraw : Administered other s raw) (hlossless : s.Lossless) (hv : raw .siteVerificationMeta = some v) :
    VerificationPair v = none ∧ s.SiteVerificationMeta = .ok [] ∨
      ∃ pair stored, VerificationPair v = some pair ∧ s.SiteVerificationMeta = .ok stored ∧ ParseVerificationMeta stored = .ok pair ∧
        ∀ c ∈ pair.1 ++ pair.2, c ∈ verificationCharset := by
  obtain ⟨hvalue, hvalid⟩ := hraw.value hlossless .siteVerificationMeta
  have hstored : s.SiteVerificationMeta = .ok ((normalizeVerificationMeta v).getD (TrimSpace v)) := by
    rw [Store.SiteVerificationMeta, hvalue, hv]
    rfl
  rcases validateVerificationMeta_ok (hvalid v hv) with ⟨hnone, hnorm⟩ | ⟨pair, hpair, hnorm, hparse⟩
  · rw [hnorm] at hstored
    exact .inl ⟨hnone, hstored⟩
  · rw [hnorm] at hstored
    refine .inr ⟨pair, _, hpair, hstored, hparse, fun c hc => ?_⟩
    obtain ⟨-, -, -, hname, hcontent⟩ := parseVerificationMeta_eq.1 hparse
    exact (List.mem_append.1 hc).elim ((verificationTokenOK_iff.1 hname).2 c) ((verificationTokenOK_iff.1 hcontent).2 c)

end reading

/-- A store whose sealer marks what it seals. -/
def markedStore : Store where
  sealer := some { Seal := fun v => some ('$' :: v), Unseal := fun v => if v.head? = some '$' then some v.tail else none }
  rows := fun _ => none
  fallback := fun _ => []

theorem lossless_markedStore (rows : Key → Option Text) : { markedStore with rows }.Lossless := fun sealer hsealer v sealed h => by
  cases hsealer
  cases h
  rfl

end Ploykit.Settings

import Mathlib.Data.List.Induction
import Ploykit.Platform.UriComponent

/-!
# Search parameters

`rawStringifySearch` and `rawParseSearch` of `packages/runtime/src/router-tanstack.tsx`. The first writes through `URLSearchParams`,
which is the browser's or the shim of the rendering sandbox; the second decodes by hand, the same in both.
-/

namespace Ploykit.Renderx.Search

open Js

/-! ## Records -/

/-- Assignment to a key, in its place or at the end. -/
def setPair (l : List (JsString × JsString)) (k v : JsString) : List (JsString × JsString) :=
  if k ∈ l.map Prod.fst then l.map fun e => if e.1 = k then (k, v) else e else l ++ [(k, v)]

theorem mem_setPair {l : List (JsString × JsString)} {k v : JsString} {e : JsString × JsString} :
    e ∈ setPair l k v ↔ e = (k, v) ∨ e.1 ≠ k ∧ e ∈ l := by
  unfold setPair
  split
  · rename_i hk
    rw [List.mem_map]
    constructor
    · rintro ⟨x, hx, rfl⟩
      split
      · exact .inl rfl
      · exact .inr ⟨‹_›, hx⟩
    · rintro (rfl | ⟨hne, he⟩)
      · obtain ⟨x, hx, hxk⟩ := List.mem_map.1 hk
        exact ⟨x, hx, if_pos hxk⟩
      · exact ⟨e, he, if_neg hne⟩
  · rename_i hk
    have hne : e ∈ l → e.1 ≠ k := fun he heq => hk (heq ▸ List.mem_map_of_mem he)
    rw [List.mem_append, List.mem_singleton]
    tauto

theorem nodup_setPair {l : List (JsString × JsString)} {k v : JsString} (h : (l.map Prod.fst).Nodup) :
    ((setPair l k v).map Prod.fst).Nodup := by
  unfold setPair
  split
  · have hkeys : (l.map fun e => if e.1 = k then (k, v) else e).map Prod.fst = l.map Prod.fst := by
      rw [List.map_map]
      refine List.map_congr_left fun e _ => ?_
      simp only [Function.comp_apply]
      split
      · exact Eq.symm ‹_›
      · rfl
    rw [hkeys]
    exact h
  · rename_i hk
    rw [List.map_append, List.nodup_append]
    refine ⟨h, by simp, fun a ha b hb heq => ?_⟩
    obtain rfl : b = k := by simpa using hb
    exact hk (heq ▸ ha)

/-- The own properties of an object of strings, in the order of their enumeration. -/
structure Record where
  entries : List (JsString × JsString)
  nodup : (entries.map Prod.fst).Nodup

def Record.empty : Record := ⟨[], List.nodup_nil⟩

/-- The records have the same properties. -/
def Record.Same (r r' : Record) : Prop := ∀ e, e ∈ r.entries ↔ e ∈ r'.entries

def proto : JsString := ofChars "__proto__".toList

/-- `out[k] = v`: a string is no prototype. -/
def Record.assign (r : Record) (k v : JsString) : Record :=
  if k = proto then r else ⟨setPair r.entries k v, nodup_setPair r.nodup⟩

/-! ## URLSearchParams -/

inductive Impl where
  | browser
  | shim
  deriving DecidableEq

/-- The browser's keeps Unicode only: a lone surrogate becomes U+FFFD. -/
def store : Impl → JsString → JsString
  | .browser, s => s.map fun x => if x.isScalar then x else .scalar '\uFFFD'
  | .shim, s => s

/-- The characters that are written for themselves. -/
def keeps : Impl → Char → Bool
  | .browser, c => c.isAlphanum || "*-._".toList.contains c
  | .shim, c => uriUnreserved c

def writeChar (impl : Impl) (c : Char) : List Char :=
  if impl = .browser ∧ c = ' ' then ['+'] else if keeps impl c then [c] else escapeChar c

def encode (impl : Impl) (s : JsString) : Option JsString := (chars s).map fun cs => ofChars (cs.flatMap (writeChar impl))

abbrev Params := List (JsString × JsString)

/-- `set`, on parameters with different names. -/
def Params.set (impl : Impl) (l : Params) (k v : JsString) : Params := setPair l (store impl k) (store impl v)

def writePair (impl : Impl) (e : JsString × JsString) : Option JsString := do
  return (← encode impl e.1) ++ .scalar '=' :: (← encode impl e.2)

def Params.toString (impl : Impl) (l : Params) : Option JsString := do
  return [.scalar '&'].intercalate (← l.mapM (writePair impl))

/-! ## The router's pair -/

def rawStringifySearch (impl : Impl) (search : Record) : Option JsString := do
  let s ← (search.entries.foldl (fun l e => Params.set impl l e.1 e.2) []).toString impl
  return if s = [] then [] else .scalar '?' :: s

/-- `s.split('+').join(' ')` -/
def spaced (s : JsString) : JsString := s.map fun x => if x = .scalar '+' then .scalar ' ' else x

def rawPair (pair : JsString) : JsString × JsString :=
  (pair.takeWhile (· ≠ .scalar '='), (pair.dropWhile (· ≠ .scalar '=')).drop 1)

def decodePair (pair : JsString) : Option (JsString × JsString) := do
  return (← decodeURIComponent (spaced (rawPair pair).1), ← decodeURIComponent (spaced (rawPair pair).2))

def pairs (searchStr : JsString) : List JsString :=
  let s := if searchStr.head? = some (.scalar '?') then searchStr.drop 1 else searchStr
  (s.splitOn (.scalar '&')).filter (· ≠ [])

def assignPair (out : Record) (pair : JsString) : Option Record := do
  let e ← decodePair pair
  return out.assign e.1 e.2

def rawParseSearch (searchStr : JsString) : Option Record := (pairs searchStr).foldlM assignPair .empty

/-! ## What is written is read back -/

section writing

variable {impl : Impl} {c d : Char} {s t : JsString} {e : JsString × JsString}

theorem keeps_delims (impl : Impl) : ['%', '+', '&', '='].all (fun d => !keeps impl d) = true := by
  cases impl <;> decide

theorem ne_of_keeps (h : keeps impl c = true) (hd : d ∈ ['%', '+', '&', '=']) : c ≠ d := by
  rintro rfl
  have hdelim := List.all_eq_true.1 (keeps_delims impl) c hd
  rw [h] at hdelim
  cases hdelim

theorem hexDigit_ne : ∀ n : Fin 16, hexDigit n ≠ '+' ∧ hexDigit n ≠ '&' ∧ hexDigit n ≠ '=' := by decide

/-- An escape holds no delimiter. -/
theorem ne_of_mem_escapeChar (h : d ∈ escapeChar c) : d ≠ '+' ∧ d ≠ '&' ∧ d ≠ '=' := by
  obtain ⟨b, -, hb⟩ := List.mem_flatMap.1 h
  have hlt : b.toNat < 256 := b.toNat_lt
  simp only [escapeByte, List.mem_cons, List.not_mem_nil, or_false] at hb
  rcases hb with rfl | rfl | rfl
  · decide
  · exact hexDigit_ne ⟨b.toNat / 16, by omega⟩
  · exact hexDigit_ne ⟨b.toNat % 16, by omega⟩

theorem ne_of_mem_writeChar (h : d ∈ writeChar impl c) : d ≠ '&' ∧ d ≠ '=' := by
  unfold writeChar at h
  split at h
  · obtain rfl := List.mem_singleton.1 h
    decide
  · split at h
    · obtain rfl := List.mem_singleton.1 h
      exact ⟨ne_of_keeps ‹_› (by decide), ne_of_keeps ‹_› (by decide)⟩
    · exact (ne_of_mem_escapeChar h).2

theorem spaced_escapeChar (c : Char) : spaced (ofChars (escapeChar c)) = ofChars (escapeChar c) := by
  have hself : ∀ x ∈ ofChars (escapeChar c), (if x = .scalar '+' then .scalar ' ' else x) = id x := by
    intro x hx
    obtain ⟨d, hd, rfl⟩ := List.mem_map.1 hx
    exact if_neg fun heq => (ne_of_mem_escapeChar hd).1 (CodePoint.scalar.inj heq)
  exact (List.map_congr_left hself).trans (List.map_id _)

/-- How a character that was written is read. -/
def tokensOf (impl : Impl) (c : Char) : List Token :=
  if (impl = .browser ∧ c = ' ') ∨ keeps impl c = true then [.plain (.scalar c)] else (String.utf8EncodeChar c).map .byte

theorem writes_tokensOf (impl : Impl) (c : Char) : Writes c (tokensOf impl c) := by
  unfold tokensOf
  split
  · exact .inl rfl
  · exact .inr rfl

theorem tokens_writeChar (impl : Impl) (c : Char) (s : JsString) :
    tokens (spaced (ofChars (writeChar impl c)) ++ s) = (tokens s).map (tokensOf impl c ++ ·) := by
  unfold writeChar tokensOf
  by_cases hspace : impl = .browser ∧ c = ' '
  · rw [if_pos hspace, if_pos (.inl hspace), hspace.2]
    exact tokens_plain (by decide) s
  · rw [if_neg hspace]
    by_cases hkeep : keeps impl c = true
    · have hplus : (CodePoint.scalar c) ≠ .scalar '+' := fun heq => ne_of_keeps hkeep (by decide) (CodePoint.scalar.inj heq)
      have hpercent : (CodePoint.scalar c) ≠ .scalar '%' := fun heq => ne_of_keeps hkeep (by decide) (CodePoint.scalar.inj heq)
      have hspaced : spaced (ofChars [c]) = [.scalar c] := by simp [spaced, ofChars, hplus]
      rw [if_pos hkeep, if_pos (.inr hkeep), hspaced]
      exact tokens_plain hpercent s
    · rw [if_neg hkeep, if_neg (by tauto), spaced_escapeChar]
      exact tokens_escapeBytes _ s

/-- What is written for a string decodes to it. -/
theorem decode_encode (h : encode impl s = some t) : decodeURIComponent (spaced t) = some s := by
  obtain ⟨cs, hcs, rfl⟩ := Option.map_eq_some_iff.1 h
  obtain rfl := chars_eq_some.1 hcs
  have htokens : tokens (spaced (ofChars (cs.flatMap (writeChar impl)))) = some (cs.flatMap (tokensOf impl)) := by
    clear h hcs
    induction cs with
    | nil => rfl
    | cons c cs ih =>
      have hsplit : spaced (ofChars ((c :: cs).flatMap (writeChar impl)))
          = spaced (ofChars (writeChar impl c)) ++ spaced (ofChars (cs.flatMap (writeChar impl))) := by
        simp [ofChars, spaced]
      rw [hsplit, tokens_writeChar, ih]
      rfl
  have hdecode := decodeTokens_writes (writes_tokensOf impl) cs []
  rw [List.flatMap_nil, List.nil_append] at hdecode
  rw [decodeURIComponent, htokens]
  exact hdecode

theorem ne_of_mem_encode (h : encode impl s = some t) : .scalar '&' ∉ t ∧ .scalar '=' ∉ t := by
  obtain ⟨cs, -, rfl⟩ := Option.map_eq_some_iff.1 h
  have hdelim : ∀ d ∈ cs.flatMap (writeChar impl), d ≠ '&' ∧ d ≠ '=' := by
    intro d hd
    obtain ⟨c, -, hc⟩ := List.mem_flatMap.1 hd
    exact ne_of_mem_writeChar hc
  simp only [ofChars, List.mem_map, CodePoint.scalar.injEq, exists_eq_right]
  exact ⟨fun hmem => (hdelim _ hmem).1 rfl, fun hmem => (hdelim _ hmem).2 rfl⟩

theorem wellFormed_encode (h : encode impl s = some t) : WellFormed t := by
  obtain ⟨cs, -, rfl⟩ := Option.map_eq_some_iff.1 h
  exact wellFormed_ofChars _

/-- The pair that was written: it is not empty, holds no ampersand and no lone surrogate, and is read back. -/
theorem writePair_spec {p : JsString} (h : writePair impl e = some p) :
    p ≠ [] ∧ .scalar '&' ∉ p ∧ WellFormed p ∧ decodePair p = some e := by
  simp only [writePair, Option.bind_eq_bind, Option.bind_eq_some_iff, Option.pure_def, Option.some.injEq] at h
  obtain ⟨k, hk, v, hv, rfl⟩ := h
  obtain ⟨hkamp, hkeq⟩ := ne_of_mem_encode hk
  have hpair : rawPair (k ++ .scalar '=' :: v) = (k, v) := by
    have hne : ∀ x ∈ k, decide (x ≠ CodePoint.scalar '=') = true := fun x hx => decide_eq_true fun heq => hkeq (heq ▸ hx)
    rw [rawPair, List.takeWhile_append_of_pos hne, List.dropWhile_append_of_pos hne]
    simp
  refine ⟨by simp, ?_, ?_, ?_⟩
  · simpa using ⟨hkamp, (ne_of_mem_encode hv).1⟩
  · exact wellFormed_append.2 ⟨wellFormed_encode hk, wellFormed_cons.2 ⟨rfl, wellFormed_encode hv⟩⟩
  · simp [decodePair, hpair, decode_encode hk, decode_encode hv]

end writing

/-! ## What a query string is parsed to -/

section parsing

variable {impl : Impl} {s : JsString} {r r' : Record} {e : JsString × JsString}

theorem wellFormed_spaced {s : JsString} : WellFormed (spaced s) ↔ WellFormed s := by
  have hscalar : ∀ x : CodePoint, (if x = .scalar '+' then .scalar ' ' else x).isScalar = x.isScalar := by
    intro x
    split
    · simp [CodePoint.isScalar, *]
    · rfl
  simp [WellFormed, spaced, hscalar]

theorem wellFormed_rawPair (p : JsString) : WellFormed p ↔ WellFormed (rawPair p).1 ∧ WellFormed (rawPair p).2 := by
  have hsplit := List.takeWhile_append_dropWhile (p := fun x => decide (x ≠ CodePoint.scalar '=')) (l := p)
  conv => lhs; rw [← hsplit]
  rw [wellFormed_append]
  refine and_congr_right fun _ => ?_
  cases hrest : p.dropWhile (fun x => decide (x ≠ CodePoint.scalar '=')) with
  | nil => simp only [rawPair, hrest, List.drop_nil]
  | cons x t =>
    have hx : x = .scalar '=' := by
      have hne : p.dropWhile (fun x => decide (x ≠ CodePoint.scalar '=')) ≠ [] := hrest ▸ List.cons_ne_nil x t
      have hhead := List.head_dropWhile_not (fun x => decide (x ≠ CodePoint.scalar '=')) hne
      simp only [hrest, List.head_cons, decide_eq_false_iff_not, not_not] at hhead
      exact hhead
    have hscalar : x.isScalar = true := hx ▸ rfl
    simp only [rawPair, hrest, List.drop_succ_cons, List.drop_zero, wellFormed_cons, hscalar, true_and]

/-- A pair is read without lone surrogates exactly if it holds none. -/
theorem wellFormed_decodePair {p : JsString} (h : decodePair p = some e) :
    WellFormed p ↔ WellFormed e.1 ∧ WellFormed e.2 := by
  simp only [decodePair, Option.bind_eq_bind, Option.bind_eq_some_iff, Option.pure_def, Option.some.injEq] at h
  obtain ⟨k, hk, v, hv, rfl⟩ := h
  rw [wellFormed_decode hk, wellFormed_decode hv, wellFormed_spaced, wellFormed_spaced, wellFormed_rawPair]

/-- The pair gives the record its value for its key: no later pair has the key. -/
def Gives (ps : List JsString) (p : JsString) (e : JsString × JsString) : Prop :=
  ∃ a b, ps = a ++ p :: b ∧ decodePair p = some e ∧ e.1 ≠ proto ∧ ∀ q ∈ b, ∀ e', decodePair q = some e' → e'.1 ≠ e.1

theorem gives_concat {ps : List JsString} {q : JsString} : (∃ p, Gives (ps ++ [q]) p e) ↔
    (decodePair q = some e ∧ e.1 ≠ proto) ∨ ((∃ p, Gives ps p e) ∧ ∀ e', decodePair q = some e' → e'.1 ≠ e.1) := by
  constructor
  · rintro ⟨p, a, b, hps, hp, hkey, hlast⟩
    cases b using List.reverseRecOn with
    | nil =>
      obtain ⟨-, hq⟩ := List.append_inj' hps rfl
      obtain rfl := List.singleton_inj.1 hq
      exact .inl ⟨hp, hkey⟩
    | append_singleton b x =>
      rw [← List.cons_append, ← List.append_assoc] at hps
      obtain ⟨hinit, hx⟩ := List.append_inj' hps rfl
      obtain rfl := List.singleton_inj.1 hx
      exact .inr ⟨⟨p, a, b, hinit, hp, hkey, fun q hq => hlast q (List.mem_append_left _ hq)⟩,
        hlast q (List.mem_append_right _ (List.mem_singleton_self q))⟩
  · rintro (⟨hq, hkey⟩ | ⟨⟨p, a, b, rfl, hp, hkey, hlast⟩, hlater⟩)
    · exact ⟨q, ps, [], rfl, hq, hkey, by simp⟩
    · refine ⟨p, a, b ++ [q], by simp, hp, hkey, fun q' hq' => ?_⟩
      rcases List.mem_append.1 hq' with hb | hb
      · exact hlast q' hb
      · exact List.mem_singleton.1 hb ▸ hlater

/-- The record of a query string has the last value of every key but `__proto__`. -/
theorem mem_entries {ps : List JsString} (h : ps.foldlM assignPair .empty = some r) :
    e ∈ r.entries ↔ ∃ p, Gives ps p e := by
  induction ps using List.reverseRecOn generalizing r with
  | nil =>
    obtain rfl := Option.some.inj h
    simp [Record.empty, Gives]
  | append_singleton ps q ih =>
    rw [List.foldlM_append] at h
    obtain ⟨t, ht, hq⟩ := Option.bind_eq_some_iff.1 h
    obtain ⟨x, hx, rfl⟩ : ∃ x, decodePair q = some x ∧ t.assign x.1 x.2 = r := by
      simpa [assignPair, Option.bind_eq_some_iff] using hq
    rw [gives_concat, ← ih ht, hx]
    unfold Record.assign
    split
    · rename_i hproto
      constructor
      · intro he
        obtain ⟨p, a, b, -, -, hkey, -⟩ := (ih ht).1 he
        exact .inr ⟨he, fun e' he' => Option.some.inj he' ▸ hproto ▸ Ne.symm hkey⟩
      · rintro (⟨heq, hkey⟩ | ⟨he, -⟩)
        · exact absurd (Option.some.inj heq ▸ hproto) hkey
        · exact he
    · rename_i hproto
      rw [mem_setPair]
      constructor
      · rintro (rfl | ⟨hne, he⟩)
        · exact .inl ⟨rfl, hproto⟩
        · exact .inr ⟨he, fun e' he' => Option.some.inj he' ▸ Ne.symm hne⟩
      · rintro (⟨heq, -⟩ | ⟨he, hlater⟩)
        · exact .inl (Option.some.inj heq).symm
        · exact .inr ⟨(hlater x rfl).symm, he⟩

/-- No property is called `__proto__`. -/
theorem key_ne_proto (h : rawParseSearch s = some r) (he : e ∈ r.entries) : e.1 ≠ proto := by
  obtain ⟨p, a, b, -, -, hkey, -⟩ := (mem_entries h).1 he
  exact hkey

theorem foldlM_isSome (ps : List JsString) (r : Record) :
    (∃ r', ps.foldlM assignPair r = some r') ↔ ∀ p ∈ ps, (decodePair p).isSome := by
  induction ps generalizing r with
  | nil => simp
  | cons p ps ih =>
    rw [List.forall_mem_cons, List.foldlM_cons]
    cases hp : decodePair p with
    | none => simp [assignPair, hp]
    | some e => simpa [assignPair, hp] using ih (r.assign e.1 e.2)

theorem parse_isSome : (∃ r, rawParseSearch s = some r) ↔ ∀ p ∈ pairs s, (decodePair p).isSome := foldlM_isSome _ _

end parsing

/-! ## Round trips -/

section roundtrips

variable {impl : Impl} {s : JsString} {r r' : Record}

/-- The strings of the record are Unicode, and none is called `__proto__`. -/
def Kept (r : Record) : Prop := ∀ e ∈ r.entries, WellFormed e.1 ∧ WellFormed e.2 ∧ e.1 ≠ proto

/-- The record is parsed from the query string that is written for it. -/
def RoundTrips (impl : Impl) (r : Record) : Prop :=
  ∃ q r', rawStringifySearch impl r = some q ∧ rawParseSearch q = some r' ∧ r'.Same r

theorem store_wellFormed (h : WellFormed s) : store impl s = s := by
  cases impl with
  | browser =>
    have hself : ∀ x ∈ s, (if x.isScalar then x else .scalar '\uFFFD') = id x := fun x hx => if_pos (h x hx)
    exact (List.map_congr_left hself).trans (List.map_id _)
  | shim => rfl

theorem encode_wellFormed (h : WellFormed s) : ∃ t, encode impl s = some t := by
  obtain ⟨cs, rfl⟩ := wellFormed_iff_chars.1 h
  rw [encode, chars_eq_some.2 rfl]
  exact ⟨_, rfl⟩

/-- New keys are put at the end. -/
theorem foldl_setPair (l acc : List (JsString × JsString)) (h : ((acc ++ l).map Prod.fst).Nodup) :
    l.foldl (fun acc e => setPair acc e.1 e.2) acc = acc ++ l := by
  induction l generalizing acc with
  | nil => simp
  | cons e l ih =>
    have hnew : e.1 ∉ acc.map Prod.fst := by
      rw [List.map_append, List.nodup_append] at h
      exact fun hmem => h.2.2 e.1 hmem e.1 (by simp) rfl
    rw [List.foldl_cons, setPair, if_neg hnew, ih]
    · simp
    · simpa using h

theorem params_kept (h : Kept r) : r.entries.foldl (fun l e => Params.set impl l e.1 e.2) [] = r.entries := by
  have hset : ∀ (l : Params), ∀ e ∈ r.entries, Params.set impl l e.1 e.2 = setPair l e.1 e.2 := by
    intro l e he
    rw [Params.set, store_wellFormed (h e he).1, store_wellFormed (h e he).2.1]
  rw [List.foldl_ext _ _ [] hset]
  exact foldl_setPair r.entries [] r.nodup

/-- The pairs that were written hold no ampersand and no lone surrogate, and are read back one after the other. -/
theorem mapM_writePair {l : Params} {ps : List JsString} (h : l.mapM (writePair impl) = some ps) :
    (∀ p ∈ ps, p ≠ [] ∧ .scalar '&' ∉ p ∧ WellFormed p) ∧
      ∀ r, ps.foldlM assignPair r = some (l.foldl (fun r e => r.assign e.1 e.2) r) := by
  induction l generalizing ps with
  | nil =>
    obtain rfl := Option.some.inj h
    simp
  | cons e l ih =>
    obtain ⟨p, hp, ps, hps, rfl⟩ : ∃ p, writePair impl e = some p ∧ ∃ ps', l.mapM (writePair impl) = some ps' ∧ p :: ps' = ps := by
      simpa [List.mapM_cons, Option.bind_eq_some_iff] using h
    obtain ⟨hne, hamp, hwell, hread⟩ := writePair_spec hp
    obtain ⟨hall, hfold⟩ := ih hps
    refine ⟨List.forall_mem_cons.2 ⟨⟨hne, hamp, hwell⟩, hall⟩, fun r => ?_⟩
    rw [List.foldlM_cons, assignPair, hread]
    exact hfold _

/-- Pairs joined after a question mark are found again. -/
theorem pairs_joined {ps : List JsString} (h : ∀ p ∈ ps, p ≠ [] ∧ .scalar '&' ∉ p) :
    pairs (if [CodePoint.scalar '&'].intercalate ps = [] then [] else .scalar '?' :: [CodePoint.scalar '&'].intercalate ps) = ps := by
  cases ps with
  | nil => rfl
  | cons p ps =>
    have hne : [CodePoint.scalar '&'].intercalate (p :: ps) ≠ [] := by
      have hp := (h p List.mem_cons_self).1
      cases ps with
      | nil => simpa [List.intercalate] using hp
      | cons p' ps => simp [List.intercalate]
    have hsplit : ([CodePoint.scalar '&'].intercalate (p :: ps)).splitOn (.scalar '&') = p :: ps :=
      List.splitOn_intercalate _ (fun l hl => (h l hl).2) (List.cons_ne_nil p ps)
    rw [if_neg hne]
    simp only [pairs, List.head?_cons, if_true, List.drop_succ_cons, List.drop_zero, hsplit]
    exact List.filter_eq_self.2 fun l hl => decide_eq_true (h l hl).1

theorem stringify_pairs {q : JsString} (h : rawStringifySearch impl r = some q) : ∃ ps,
    (r.entries.foldl (fun l e => Params.set impl l e.1 e.2) []).mapM (writePair impl) = some ps ∧ pairs q = ps := by
  obtain ⟨t, ht, hq⟩ := Option.bind_eq_some_iff.1 h
  obtain ⟨ps, hps, ht⟩ := Option.bind_eq_some_iff.1 ht
  obtain rfl := Option.some.inj ht
  obtain rfl := Option.some.inj hq
  exact ⟨ps, hps, pairs_joined fun p hp => ⟨((mapM_writePair hps).1 p hp).1, ((mapM_writePair hps).1 p hp).2.1⟩⟩

/-- A record without `__proto__` is put together from its entries. -/
theorem foldl_assign {l : List (JsString × JsString)} {r : Record} (h : ((r.entries ++ l).map Prod.fst).Nodup)
    (hproto : ∀ e ∈ l, e.1 ≠ proto) : (l.foldl (fun r e => r.assign e.1 e.2) r).entries = r.entries ++ l := by
  induction l generalizing r with
  | nil => simp
  | cons e l ih =>
    have hnew : e.1 ∉ r.entries.map Prod.fst := by
      rw [List.map_append, List.nodup_append] at h
      exact fun hmem => h.2.2 e.1 hmem e.1 (by simp) rfl
    have hassign : (r.assign e.1 e.2).entries = r.entries ++ [e] := by
      rw [Record.assign, if_neg (hproto e List.mem_cons_self)]
      exact if_neg hnew
    rw [List.foldl_cons, ih, hassign]
    · simp
    · rw [hassign]
      simpa using h
    · exact fun e he => hproto e (List.mem_cons_of_mem _ he)

theorem mapM_isSome {l : Params} (h : ∀ e ∈ l, WellFormed e.1 ∧ WellFormed e.2) : ∃ ps, l.mapM (writePair impl) = some ps := by
  induction l with
  | nil => exact ⟨[], rfl⟩
  | cons e l ih =>
    obtain ⟨⟨hk, hv⟩, hl⟩ := List.forall_mem_cons.1 h
    obtain ⟨k, hk⟩ : ∃ k, encode impl e.1 = some k := encode_wellFormed hk
    obtain ⟨v, hv⟩ : ∃ v, encode impl e.2 = some v := encode_wellFormed hv
    obtain ⟨ps, hps⟩ := ih hl
    exact ⟨(k ++ .scalar '=' :: v) :: ps, by simp [List.mapM_cons, writePair, hk, hv, hps]⟩

/-- Through either implementation, a record is read back exactly if its strings are Unicode and none of its keys is `__proto__`. -/
theorem roundTrips_iff : RoundTrips impl r ↔ Kept r := by
  constructor
  · rintro ⟨q, r', hq, hr', hsame⟩ e he
    obtain ⟨ps, hps, hpairs⟩ := stringify_pairs hq
    have he' := (hsame e).2 he
    obtain ⟨p, a, b, hsplit, hp, -⟩ := (mem_entries hr').1 he'
    have hwell := ((mapM_writePair hps).1 p (hpairs ▸ hsplit ▸ List.mem_append_right _ List.mem_cons_self)).2.2
    obtain ⟨hk, hv⟩ := (wellFormed_decodePair hp).1 hwell
    exact ⟨hk, hv, key_ne_proto hr' he'⟩
  · intro h
    obtain ⟨ps, hps⟩ : ∃ ps, r.entries.mapM (writePair impl) = some ps := mapM_isSome fun e he => ⟨(h e he).1, (h e he).2.1⟩
    have hq : ∃ q, rawStringifySearch impl r = some q := by
      simp [rawStringifySearch, params_kept h, Params.toString, hps]
    obtain ⟨q, hq⟩ := hq
    obtain ⟨ps', hps', hpairs⟩ := stringify_pairs hq
    rw [params_kept h, hps] at hps'
    obtain rfl := Option.some.inj hps'
    have hentries : (r.entries.foldl (fun (r : Record) e => r.assign e.1 e.2) Record.empty).entries
        = Record.empty.entries ++ r.entries :=
      foldl_assign r.nodup fun e he => (h e he).2.2
    refine ⟨q, r.entries.foldl (fun (r : Record) e => r.assign e.1 e.2) Record.empty, hq, ?_, fun e => ?_⟩
    · rw [rawParseSearch, hpairs]
      exact (mapM_writePair hps).2 .empty
    · rw [hentries]
      rfl

/-- The query string is parsed, and what it is parsed to is read back, whatever the order in which it is enumerated. -/
def Survives (impl : Impl) (s : JsString) : Prop := ∃ r, rawParseSearch s = some r ∧ ∀ r' : Record, r'.Same r → RoundTrips impl r'

/-- All pairs decode, and those that give the record a value hold no lone surrogate. -/
structure Sound (s : JsString) : Prop where
  decodes : ∀ p ∈ pairs s, (decodePair p).isSome
  scalars : ∀ p e, Gives (pairs s) p e → WellFormed p

theorem survives_iff : Survives impl s ↔ Sound s := by
  constructor
  · rintro ⟨r, hr, hback⟩
    refine ⟨parse_isSome.1 ⟨r, hr⟩, fun p e hgives => ?_⟩
    have hkept := roundTrips_iff.1 (hback r fun _ => Iff.rfl)
    obtain ⟨hk, hv, -⟩ := hkept e ((mem_entries hr).2 ⟨p, hgives⟩)
    obtain ⟨a, b, -, hp, -⟩ := hgives
    exact (wellFormed_decodePair hp).2 ⟨hk, hv⟩
  · intro h
    obtain ⟨r, hr⟩ := parse_isSome.2 h.decodes
    refine ⟨r, hr, fun r' hsame => roundTrips_iff.2 fun e he => ?_⟩
    have he := (hsame e).1 he
    obtain ⟨p, hgives⟩ := (mem_entries hr).1 he
    have hwell := h.scalars p e hgives
    obtain ⟨a, b, -, hp, -⟩ := hgives
    obtain ⟨hk, hv⟩ := (wellFormed_decodePair hp).1 hwell
    exact ⟨hk, hv, key_ne_proto hr he⟩

end roundtrips

/-- Which records and which query strings survive the router. -/
theorem search_survives_iff (impl : Impl) :
    (∀ r, RoundTrips impl r ↔ Kept r) ∧ ∀ s, Survives impl s ↔ Sound s := ⟨fun _ => roundTrips_iff, fun _ => survives_iff⟩

/-- `?q=100%` is not parsed at all, and the property `__proto__` is lost. -/
theorem search_lost : rawParseSearch (ofChars "?q=100%".toList) = none ∧ ¬ Survives .browser (ofChars "?q=100%".toList) ∧
    ¬ RoundTrips .browser ⟨[(proto, ofChars ['x'])], by decide⟩ := by
  have hpairs : pairs (ofChars "?q=100%".toList) = [ofChars "q=100%".toList] := by decide
  have htokens : tokens (spaced (rawPair (ofChars "q=100%".toList)).2) = none := by decide
  have hpair : decodePair (ofChars "q=100%".toList) = none := by
    cases hp : decodePair (ofChars "q=100%".toList) with
    | none => rfl
    | some e =>
      simp only [decodePair, decodeURIComponent, htokens, Option.bind_eq_bind, Option.bind_eq_some_iff] at hp
      obtain ⟨_, -, _, ⟨_, hno, -⟩, -⟩ := hp
      cases hno
  have hnone : rawParseSearch (ofChars "?q=100%".toList) = none := by
    rw [rawParseSearch, hpairs, List.foldlM_cons, assignPair, hpair]
    rfl
  refine ⟨hnone, ?_, fun h => ?_⟩
  · rintro ⟨r, hr, -⟩
    rw [hnone] at hr
    cases hr
  · exact (roundTrips_iff.1 h _ List.mem_cons_self).2.2 rfl

end Ploykit.Renderx.Search

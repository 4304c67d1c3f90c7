import Mathlib.Data.Finset.Card

/-!
# Least recently used

Of a history of uses, the last use first, the keys that were used most recently, and the
entries in the order of their last use. What does not fit is forgotten from the end.
-/

namespace Ploykit.Lib

variable {K : Type} [DecidableEq K] {k : K} {n : Nat} {past : List K}

/-- The keys of a history, each at its last use. -/
def recents : List K → List K
  | [] => []
  | k :: past => k :: (recents past).filter (· ≠ k)

theorem mem_of_mem_recents (h : k ∈ recents past) : k ∈ past := by
  induction past with
  | nil => exact h
  | cons j past ih =>
    rcases List.mem_cons.1 h with rfl | hrest
    · exact List.mem_cons_self
    · exact List.mem_cons_of_mem j (ih (List.mem_of_mem_filter hrest))

theorem nodup_recents (past : List K) : (recents past).Nodup := by
  induction past with
  | nil => exact List.nodup_nil
  | cons k past ih =>
    refine List.nodup_cons.2 ⟨fun h => ?_, ih.filter _⟩
    exact of_decide_eq_true (List.mem_filter.1 h).2 rfl

/-- A key that is among the most recent comes first, and the others stay. -/
theorem take_recents_of_mem (h : k ∈ (recents past).take n) :
    (recents (k :: past)).take n = k :: ((recents past).take n).filter (· ≠ k) := by
  have hn : n ≠ 0 := by
    rintro rfl
    cases h
  obtain ⟨m, rfl⟩ := Nat.exists_eq_succ_of_ne_zero hn
  rw [recents, List.take_succ_cons]
  refine congrArg (k :: ·) ?_
  have hnodup : ((recents past).take (m + 1)).Nodup := (nodup_recents past).sublist (List.take_sublist _ _)
  have hlength : (((recents past).take (m + 1)).filter (· ≠ k)).length + 1 = min (m + 1) (recents past).length := by
    have herase : ((recents past).take (m + 1)).erase k = ((recents past).take (m + 1)).filter (· ≠ k) :=
      (hnodup.erase_eq_filter k).trans (List.filter_congr fun a _ => by simp [bne, beq_eq_decide])
    rw [← herase, List.length_erase_of_mem h, List.length_take]
    have hpos := List.length_pos_of_mem h
    rw [List.length_take] at hpos
    omega
  conv_lhs => rw [← List.take_append_drop (m + 1) (recents past), List.filter_append]
  rcases Nat.lt_or_ge m (recents past).length with hlt | hge
  · rw [List.take_left' (by omega)]
  · rw [List.drop_eq_nil_of_le (by omega), List.filter_nil, List.append_nil, List.take_of_length_le (by omega)]

/-- A key that is not displaces the last of them. -/
theorem take_recents_of_notMem (h : k ∉ (recents past).take (n + 1)) :
    (recents (k :: past)).take (n + 1) = k :: (recents past).take n := by
  rw [recents, List.take_succ_cons]
  refine congrArg (k :: ·) ?_
  have hsame : ((recents past).take (n + 1)).filter (· ≠ k) = (recents past).take (n + 1) :=
    List.filter_eq_self.2 fun a ha => decide_eq_true fun hak => h (hak ▸ ha)
  conv_lhs => rw [← List.take_append_drop (n + 1) (recents past), List.filter_append, hsame]
  rw [List.take_append, List.take_take, List.length_take, Nat.min_eq_left (Nat.le_succ n)]
  rcases Nat.lt_or_ge n (recents past).length with hlt | hge
  · rw [Nat.sub_eq_zero_of_le (by omega), List.take_zero, List.append_nil]
  · rw [List.drop_eq_nil_of_le (by omega), List.filter_nil, List.take_nil, List.append_nil]

@[ext] structure Lru (K V : Type) where
  max : Nat
  entries : List (K × V)
  nodup : (entries.map Prod.fst).Nodup
  bound : entries.length ≤ max

namespace Lru

variable {K V : Type} [DecidableEq K]

def keys (m : Lru K V) : List K := m.entries.map Prod.fst

def peek (m : Lru K V) (k : K) : Option V := (m.entries.find? fun e => e.1 = k).map Prod.snd

/-- The entries of the other keys. -/
def others (m : Lru K V) (k : K) : List (K × V) := m.entries.filter fun e => e.1 ≠ k

theorem notMem_others (m : Lru K V) (k : K) : k ∉ (m.others k).map Prod.fst := by
  intro h
  obtain ⟨e, he, hk⟩ := List.mem_map.1 h
  exact of_decide_eq_true (List.mem_filter.1 he).2 hk

theorem others_sublist (m : Lru K V) (k : K) : (m.others k).Sublist m.entries := List.filter_sublist

theorem nodup_others (m : Lru K V) (k : K) : ((m.others k).map Prod.fst).Nodup :=
  m.nodup.sublist ((m.others_sublist k).map _)

/-- The key is stored, as the one that was used last. -/
def put (m : Lru K V) (k : K) (v : V) : Lru K V where
  max := m.max
  entries := ((k, v) :: m.others k).take m.max
  nodup := by
    refine List.Nodup.sublist ((List.take_sublist _ _).map _) ?_
    exact List.nodup_cons.2 ⟨m.notMem_others k, m.nodup_others k⟩
  bound := by simp

def delete (m : Lru K V) (k : K) : Lru K V where
  max := m.max
  entries := m.others k
  nodup := m.nodup_others k
  bound := (m.others_sublist k).length_le.trans m.bound

/-- The key was used. -/
def touch (m : Lru K V) (k : K) : Lru K V :=
  match m.peek k with
  | none => m
  | some v => m.put k v

/-! ## What is stored -/

section lemmas

variable {m : Lru K V} {k k' : K} {v : V}

theorem peek_eq_some : m.peek k = some v ↔ (k, v) ∈ m.entries := by
  constructor
  · intro h
    obtain ⟨e, he, rfl⟩ := Option.map_eq_some_iff.1 h
    have hk : e.1 = k := by simpa using List.find?_some he
    rw [← hk]
    exact List.mem_of_find?_eq_some he
  · intro h
    cases hfind : m.entries.find? fun e => e.1 = k with
    | none => exact absurd (decide_eq_true rfl) (List.find?_eq_none.1 hfind _ h)
    | some e =>
      have hk : e.1 = k := by simpa using List.find?_some hfind
      have he : e = (k, v) := List.inj_on_of_nodup_map m.nodup (List.mem_of_find?_eq_some hfind) h hk
      rw [peek, hfind, he]
      rfl

theorem mem_keys : k ∈ m.keys ↔ m.peek k ≠ none := by
  rw [Option.ne_none_iff_exists', keys, List.mem_map]
  constructor
  · rintro ⟨e, he, rfl⟩
    exact ⟨e.2, peek_eq_some.2 he⟩
  · rintro ⟨v, hv⟩
    exact ⟨_, peek_eq_some.1 hv, rfl⟩

theorem peek_ext {m' : Lru K V} (h : ∀ v, (k, v) ∈ m'.entries ↔ (k', v) ∈ m.entries) : m'.peek k = m.peek k' :=
  Option.ext fun v => by rw [peek_eq_some, peek_eq_some, h]

theorem mem_others {e : K × V} : e ∈ m.others k ↔ e ∈ m.entries ∧ e.1 ≠ k := by
  simp [others]

theorem peek_delete : (m.delete k).peek k' = if k' = k then none else m.peek k' := by
  split
  · rename_i hk
    exact Option.eq_none_iff_forall_ne_some.2 fun v hv => (mem_others.1 (peek_eq_some.1 hv)).2 hk
  · rename_i hk
    exact peek_ext fun v => mem_others.trans (and_iff_left hk)

theorem entries_put (m : Lru K V) (k : K) (v : V) : (m.put k v).entries = ((k, v) :: m.others k).take m.max := rfl

theorem peek_put_self (hmax : 0 < m.max) : (m.put k v).peek k = some v := by
  refine peek_eq_some.2 ?_
  obtain ⟨n, hn⟩ := Nat.exists_eq_succ_of_ne_zero hmax.ne'
  rw [entries_put, hn]
  exact List.mem_cons_self

/-- What is stored afterwards is what was put, or was stored before. -/
theorem peek_of_put {w : V} (h : (m.put k v).peek k' = some w) : (k' = k ∧ w = v) ∨ k' ≠ k ∧ m.peek k' = some w := by
  cases List.mem_cons.1 ((List.take_sublist _ _).subset (peek_eq_some.1 h)) with
  | inl heq => exact .inl ⟨congrArg Prod.fst heq, congrArg Prod.snd heq⟩
  | inr hmem => exact .inr ⟨(mem_others.1 hmem).2, peek_eq_some.2 (mem_others.1 hmem).1⟩

/-- What fits is not forgotten. -/
theorem entries_put_fits (hfits : (insert k m.keys.toFinset).card ≤ m.max) : (m.put k v).entries = (k, v) :: m.others k := by
  refine List.take_of_length_le ?_
  have hsub : (k :: (m.others k).map Prod.fst).toFinset ⊆ insert k m.keys.toFinset := by
    intro a ha
    rw [List.toFinset_cons] at ha
    refine Finset.insert_subset_insert k (fun b hb => ?_) ha
    exact List.mem_toFinset.2 (((m.others_sublist k).map _).subset (List.mem_toFinset.1 hb))
  have hnodup : (k :: (m.others k).map Prod.fst).Nodup := List.nodup_cons.2 ⟨m.notMem_others k, m.nodup_others k⟩
  have hcard := Finset.card_le_card hsub
  rw [List.toFinset_card_of_nodup hnodup] at hcard
  simpa using hcard.trans hfits

theorem peek_put_fits (hfits : (insert k m.keys.toFinset).card ≤ m.max) :
    (m.put k v).peek k' = if k' = k then some v else m.peek k' := by
  have hentries := entries_put_fits (v := v) hfits
  split
  · rename_i hk
    rw [hk, peek_eq_some, hentries]
    exact List.mem_cons_self
  · rename_i hk
    refine peek_ext fun w => ?_
    rw [hentries, List.mem_cons, mem_others]
    exact ⟨fun h => (h.resolve_left fun heq => hk (congrArg Prod.fst heq)).1, fun h => .inr ⟨h, hk⟩⟩

theorem peek_touch : (m.touch k).peek k' = m.peek k' := by
  unfold touch
  cases hk : m.peek k with
  | none => rfl
  | some v =>
    have hmem : k ∈ m.keys := mem_keys.2 (by rw [hk]; exact Option.some_ne_none v)
    have hcard : (insert k m.keys.toFinset).card ≤ m.max := by
      rw [Finset.insert_eq_of_mem (List.mem_toFinset.2 hmem)]
      exact (List.toFinset_card_le _).trans (by simpa [keys] using m.bound)
    refine (peek_put_fits hcard).trans ?_
    split
    · rename_i heq
      rw [heq, hk]
    · rfl

/-- The keys put last come first, and push out what does not fit behind them. -/
theorem entries_puts (m : Lru K V) (kvs : List (K × V)) (hnodup : (kvs.map Prod.fst).Nodup) :
    ∃ rest, (kvs.foldl (fun m e => m.put e.1 e.2) m).entries = (kvs.reverse ++ rest).take m.max := by
  induction kvs using List.reverseRecOn with
  | nil => exact ⟨m.entries, (List.take_of_length_le m.bound).symm⟩
  | append_singleton kvs e ih =>
    rw [List.map_append] at hnodup
    obtain ⟨rest, hrest⟩ := ih (List.nodup_append.1 hnodup).1
    have hmax : ∀ l : List (K × V), (l.foldl (fun m e => m.put e.1 e.2) m).max = m.max := by
      intro l
      induction l using List.reverseRecOn with
      | nil => rfl
      | append_singleton l e ih => rwa [List.foldl_concat]
    have hnew : ∀ f ∈ kvs.reverse, f.1 ≠ e.1 := by
      intro f hf heq
      refine (List.nodup_append.1 hnodup).2.2 f.1 ?_ e.1 (by simp) heq
      exact List.mem_map_of_mem (List.mem_reverse.1 hf)
    have hothers : ∀ n, ∃ rest', ((kvs.reverse ++ rest).take n).filter (fun f => f.1 ≠ e.1) =
        (kvs.reverse ++ rest').take n := by
      intro n
      rw [List.take_append, List.filter_append, List.filter_eq_self.2 fun f hf =>
        decide_eq_true (hnew f (List.mem_of_mem_take hf))]
      refine ⟨(rest.take (n - kvs.reverse.length)).filter fun f => f.1 ≠ e.1, ?_⟩
      rw [List.take_append, List.take_of_length_le (l := List.filter _ _)]
      exact (List.length_filter_le _ _).trans (by simp)
    obtain ⟨rest', hrest'⟩ := hothers m.max
    refine ⟨rest', ?_⟩
    rw [List.foldl_concat, entries_put, hmax, others, hrest, hrest', List.reverse_append]
    change List.take m.max (e :: List.take m.max (kvs.reverse ++ rest')) = List.take m.max (e :: (kvs.reverse ++ rest'))
    cases m.max with
    | zero => rfl
    | succ n => simp [List.take_take]

end lemmas

end Lru

end Ploykit.Lib

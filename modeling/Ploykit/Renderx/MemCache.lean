import Mathlib.Data.List.AList
import Ploykit.Lib.Lru
import Ploykit.Platform.GoString

/-!
# Pages in memory

`memCache` of `platform/renderx/cache.go`. An element of the list has an identity, as the
pointers of the map have it.
-/

namespace Ploykit.Renderx

open Lib

structure MemItem (V : Type) where
  key : GoString
  ent : V

/-- An element of the list. -/
abbrev Element (V : Type) := Nat × MemItem V

abbrev Items := AList fun _ : GoString => Nat

section inStep

variable {V : Type} {ll : List (Element V)} {items : Items}

/-- The map leads from the keys of the list to their elements. -/
structure InStep (ll : List (Element V)) (items : Items) : Prop where
  ids : (ll.map Prod.fst).Nodup
  lookup : ∀ key el, items.lookup key = some el ↔ ∃ ent, (el, ⟨key, ent⟩) ∈ ll

theorem InStep.eq_of_id (h : InStep ll items) {e f : Element V} (he : e ∈ ll) (hf : f ∈ ll) (heq : e.1 = f.1) : e = f :=
  List.inj_on_of_nodup_map h.ids he hf heq

theorem InStep.lookup_of_mem (h : InStep ll items) {e : Element V} (he : e ∈ ll) : items.lookup e.2.key = some e.1 :=
  (h.lookup _ _).2 ⟨e.2.ent, he⟩

theorem InStep.eq_of_key (h : InStep ll items) {e f : Element V} (he : e ∈ ll) (hf : f ∈ ll) (heq : e.2.key = f.2.key) :
    e = f := by
  refine h.eq_of_id he hf (Option.some.inj ?_)
  rw [← h.lookup_of_mem he, ← h.lookup_of_mem hf, heq]

/-- No key is twice in the list. -/
theorem InStep.keys (h : InStep ll items) : (ll.map fun e => e.2.key).Nodup := by
  have hids : ll.Pairwise fun e f => e.1 ≠ f.1 := List.pairwise_map.1 h.ids
  exact List.pairwise_map.2 (hids.imp_of_mem fun he hf hne heq => hne (congrArg Prod.fst (h.eq_of_key he hf heq)))

theorem InStep.empty : InStep ([] : List (Element V)) ∅ where
  ids := List.nodup_nil
  lookup key el := by simp

theorem InStep.cons (h : InStep ll items) {el : Nat} (hnew : ∀ e ∈ ll, e.1 ≠ el) {key : GoString}
    (hkey : items.lookup key = none) (ent : V) : InStep ((el, ⟨key, ent⟩) :: ll) (items.insert key el) where
  ids := by
    refine List.nodup_cons.2 ⟨fun hmem => ?_, h.ids⟩
    obtain ⟨e, he, heq⟩ := List.mem_map.1 hmem
    exact hnew e he heq
  lookup key' el' := by
    rcases eq_or_ne key' key with rfl | hne
    · rw [AList.lookup_insert]
      constructor
      · rintro ⟨⟩
        exact ⟨ent, List.mem_cons_self⟩
      · rintro ⟨ent', hmem⟩
        cases List.mem_cons.1 hmem with
        | inl heq =>
          cases heq
          rfl
        | inr hmem =>
          rw [(h.lookup _ _).2 ⟨ent', hmem⟩] at hkey
          cases hkey
    · rw [AList.lookup_insert_ne hne, h.lookup]
      refine exists_congr fun ent' => ⟨List.mem_cons_of_mem _, fun hmem => ?_⟩
      refine (List.mem_cons.1 hmem).resolve_left fun heq => hne ?_
      cases heq
      rfl

/-- Fewer elements, and the keys of the ones that are left. -/
theorem InStep.sublist (h : InStep ll items) {ll' : List (Element V)} (hsub : ll'.Sublist ll) {key : GoString}
    (hmem : ∀ e ∈ ll, e ∈ ll' ↔ e.2.key ≠ key) : InStep ll' (items.erase key) where
  ids := h.ids.sublist (hsub.map _)
  lookup key' el := by
    rcases eq_or_ne key' key with rfl | hne
    · rw [AList.lookup_erase]
      refine iff_of_false (fun h => (nomatch h)) ?_
      rintro ⟨ent, hin⟩
      exact (hmem _ (hsub.subset hin)).1 hin rfl
    · rw [AList.lookup_erase_ne hne, h.lookup]
      exact exists_congr fun ent => ⟨fun hin => (hmem _ hin).2 hne, fun hin => hsub.subset hin⟩

/-- The elements but one. -/
def without (ll : List (Element V)) (el : Nat) : List (Element V) := ll.filter fun e => e.1 ≠ el

theorem mem_without {el : Nat} {e : Element V} : e ∈ without ll el ↔ e ∈ ll ∧ e.1 ≠ el := by
  simp [without]

/-- The element of a key is the only one with the key. -/
theorem InStep.id_iff_key (h : InStep ll items) {key : GoString} {el : Nat} (hkey : items.lookup key = some el)
    {e : Element V} (he : e ∈ ll) : e.1 = el ↔ e.2.key = key := by
  obtain ⟨ent, hmem⟩ := (h.lookup key el).1 hkey
  constructor
  · intro heq
    rw [h.eq_of_id he hmem heq]
  · intro heq
    rw [h.eq_of_key he hmem heq]

theorem InStep.erase (h : InStep ll items) {key : GoString} {el : Nat} (hkey : items.lookup key = some el) :
    InStep (without ll el) (items.erase key) := by
  have hsub : (without ll el).Sublist ll := List.filter_sublist
  refine h.sublist hsub fun e he => ?_
  rw [mem_without, and_iff_right he, ne_eq, h.id_iff_key hkey he]

/-- The element of a key comes to the front, with another value. -/
theorem InStep.front (h : InStep ll items) {key : GoString} {el : Nat} (hkey : items.lookup key = some el) (ent : V) :
    InStep ((el, ⟨key, ent⟩) :: without ll el) items where
  ids := by
    refine List.nodup_cons.2 ⟨fun hmem => ?_, (h.erase hkey).ids⟩
    obtain ⟨e, he, heq⟩ := List.mem_map.1 hmem
    exact (mem_without.1 he).2 heq
  lookup key' el' := by
    rw [h.lookup]
    simp only [List.mem_cons, mem_without]
    constructor
    · rintro ⟨ent', hmem⟩
      rcases eq_or_ne el' el with rfl | hne
      · have hk : key' = key := (h.id_iff_key hkey hmem).1 rfl
        rw [hk]
        exact ⟨ent, .inl rfl⟩
      · exact ⟨ent', .inr ⟨hmem, hne⟩⟩
    · rintro ⟨ent', heq | hmem⟩
      · cases heq
        exact (h.lookup _ _).1 hkey
      · exact ⟨ent', hmem.1⟩

/-- The oldest elements are removed, from the last one on. -/
def evict (gone : List (Element V)) (items : Items) : Items := gone.reverse.foldl (fun items e => items.erase e.2.key) items

theorem InStep.evict (gone : List (Element V)) (h : InStep (ll ++ gone) items) : InStep ll (evict gone items) := by
  induction gone using List.reverseRecOn generalizing items with
  | nil => rwa [List.append_nil] at h
  | append_singleton gone e ih =>
    rw [Renderx.evict, List.reverse_append]
    refine ih (h.sublist (by simp) fun f hf => ?_)
    have he : e ∈ ll ++ (gone ++ [e]) := by simp
    constructor
    · intro hin heq
      have hdup : (ll ++ gone ++ [e]).Nodup := by
        rw [List.append_assoc]
        exact h.ids.of_map
      exact (List.nodup_append.1 hdup).2.2 f hin e (by simp) (h.eq_of_key hf he heq)
    · intro hne
      rw [← List.append_assoc] at hf
      exact (List.mem_append.1 hf).resolve_right fun hlast => hne (by rw [List.mem_singleton.1 hlast])

end inStep

structure MemCache (V : Type) where
  max : Nat
  ll : List (Element V)
  items : Items
  /-- The identity of the next element. -/
  next : Nat
  inStep : InStep ll items
  fresh : ∀ e ∈ ll, e.1 < next
  bound : ll.length ≤ max

namespace MemCache

variable {V : Type}

def newMemCache (max : Nat) : MemCache V where
  max := max
  ll := []
  items := ∅
  next := 0
  inStep := .empty
  fresh _ he := (nomatch he)
  bound := Nat.zero_le max

section calls

variable (m : MemCache V) (key : GoString)

/-- `el.Value` -/
def value (el : Nat) : Option V := (m.ll.find? fun e => e.1 = el).map fun e => e.2.ent

def peek : Option V := (m.items.lookup key).bind m.value

theorem length_without {el : Nat} {key : GoString} (h : m.items.lookup key = some el) :
    (without m.ll el).length + 1 ≤ m.max := by
  obtain ⟨ent, hmem⟩ := (m.inStep.lookup key el).1 h
  refine Nat.lt_of_lt_of_le ?_ m.bound
  exact List.length_filter_lt_length_iff_exists.2 ⟨_, hmem, by simp⟩

theorem fresh_without {el : Nat} {key : GoString} (h : m.items.lookup key = some el) (ent : V) :
    ∀ e ∈ (el, MemItem.mk key ent) :: without m.ll el, e.1 < m.next := by
  obtain ⟨old, hmem⟩ := (m.inStep.lookup key el).1 h
  have hel : el < m.next := m.fresh _ hmem
  refine List.forall_mem_cons.2 ⟨hel, fun e he => m.fresh e (mem_without.1 he).1⟩

/-- `MoveToFront`, of the element that the map leads to, with the value that it is given. -/
def toFront {el : Nat} {key : GoString} (h : m.items.lookup key = some el) (ent : V) : MemCache V where
  max := m.max
  ll := (el, ⟨key, ent⟩) :: without m.ll el
  items := m.items
  next := m.next
  inStep := m.inStep.front h ent
  fresh := m.fresh_without h ent
  bound := m.length_without h

def get : Option V × MemCache V :=
  match h : m.items.lookup key with
  | none => (none, m)
  | some el =>
    match m.value el with
    | none => (none, m)
    | some ent => (some ent, m.toFront h ent)

def put (ent : V) : MemCache V :=
  match h : m.items.lookup key with
  | some _ => m.toFront h ent
  | none =>
    -- the new element is put in front, and the loop removes from the back what is too much
    let ll := (m.next, ⟨key, ent⟩) :: m.ll
    { max := m.max
      ll := ll.take m.max
      items := evict (ll.drop m.max) (m.items.insert key m.next)
      next := m.next + 1
      inStep := by
        refine InStep.evict _ ?_
        rw [List.take_append_drop]
        exact m.inStep.cons (fun e he => (m.fresh e he).ne) h ent
      fresh := by
        intro e he
        cases List.mem_cons.1 (List.mem_of_mem_take he) with
        | inl heq =>
          rw [heq]
          exact Nat.lt_succ_self _
        | inr hmem => exact (m.fresh e hmem).trans (Nat.lt_succ_self _)
      bound := List.length_take_le _ _ }

def delete : MemCache V :=
  match h : m.items.lookup key with
  | none => m
  | some el =>
    { max := m.max
      ll := without m.ll el
      items := m.items.erase key
      next := m.next
      inStep := m.inStep.erase h
      fresh := fun e he => m.fresh e (mem_without.1 he).1
      bound := (Nat.le_succ _).trans (m.length_without h) }

def keys : List GoString := m.items.keys

end calls

/-! ## Least recently used -/

section lru

variable {m : MemCache V} {key : GoString}

theorem value_of_mem {e : Element V} (h : e ∈ m.ll) : m.value e.1 = some e.2.ent := by
  cases hfind : m.ll.find? fun f => f.1 = e.1 with
  | none => exact absurd (decide_eq_true rfl) (List.find?_eq_none.1 hfind e h)
  | some f =>
    have hid : f.1 = e.1 := by simpa using List.find?_some hfind
    rw [value, hfind, m.inStep.eq_of_id (List.mem_of_find?_eq_some hfind) h hid]
    rfl

/-- The list in the order of use. -/
def toLru (m : MemCache V) : Lru GoString V where
  max := m.max
  entries := m.ll.map fun e => (e.2.key, e.2.ent)
  nodup := by
    rw [List.map_map]
    exact m.inStep.keys
  bound := by
    rw [List.length_map]
    exact m.bound

theorem peek_toLru : m.toLru.peek key = m.peek key := by
  refine Option.ext fun ent => ?_
  rw [Lru.peek_eq_some]
  constructor
  · intro h
    obtain ⟨e, he, heq⟩ := List.mem_map.1 h
    cases heq
    rw [peek, m.inStep.lookup_of_mem he]
    exact value_of_mem he
  · intro h
    obtain ⟨el, hkey, hvalue⟩ := Option.bind_eq_some_iff.1 h
    obtain ⟨ent', hmem⟩ := (m.inStep.lookup key el).1 hkey
    have hent : ent' = ent := Option.some.inj ((value_of_mem hmem).symm.trans hvalue)
    exact List.mem_map.2 ⟨_, hmem, by rw [hent]⟩

theorem lookup_eq_none : m.items.lookup key = none ↔ m.peek key = none := by
  rw [peek]
  cases hkey : m.items.lookup key with
  | none => simp
  | some el =>
    obtain ⟨ent, hmem⟩ := (m.inStep.lookup key el).1 hkey
    have hvalue : m.value el = some ent := value_of_mem hmem
    simp [hvalue]

theorem others_toLru {el : Nat} (hkey : m.items.lookup key = some el) :
    m.toLru.others key = (without m.ll el).map fun e => (e.2.key, e.2.ent) := by
  rw [Lru.others, without]
  change (m.ll.map _).filter _ = _
  rw [List.filter_map]
  refine congrArg _ (List.filter_congr fun e he => ?_)
  exact decide_eq_decide.2 (not_congr (m.inStep.id_iff_key hkey he)).symm

theorem others_toLru_none (hkey : m.items.lookup key = none) : m.toLru.others key = m.toLru.entries := by
  refine List.filter_eq_self.2 fun e he => decide_eq_true fun heq => ?_
  obtain ⟨f, hf, rfl⟩ := List.mem_map.1 he
  have hlookup := m.inStep.lookup_of_mem hf
  rw [show f.2.key = key from heq, hkey] at hlookup
  cases hlookup

theorem toFront_toLru {el : Nat} (hkey : m.items.lookup key = some el) (ent : V) :
    (m.toFront hkey ent).toLru = m.toLru.put key ent := by
  have hentries : (m.toFront hkey ent).toLru.entries = (m.toLru.put key ent).entries := by
    rw [Lru.entries_put, others_toLru hkey, List.take_of_length_le]
    · rfl
    · have hlen : (without m.ll el).length + 1 ≤ m.toLru.max := m.length_without hkey
      simpa using hlen
  exact Lru.ext rfl hentries

theorem put_toLru (ent : V) : (m.put key ent).toLru = m.toLru.put key ent := by
  unfold put
  split
  · rename_i el hkey
    exact toFront_toLru hkey ent
  · rename_i hkey
    refine Lru.ext rfl ?_
    rw [Lru.entries_put, others_toLru_none hkey]
    exact List.map_take

theorem get_toLru : (m.get key).1 = m.toLru.peek key ∧ (m.get key).2.toLru = m.toLru.touch key := by
  rw [peek_toLru, Lru.touch, peek_toLru, peek]
  unfold get
  split
  · rename_i hkey
    simp [hkey]
  · rename_i el hkey
    cases hvalue : m.value el with
    | none => simp [hkey, hvalue]
    | some ent =>
      simp only [hkey, Option.bind_some, hvalue]
      exact ⟨trivial, toFront_toLru hkey ent⟩

theorem delete_toLru : (m.delete key).toLru = m.toLru.delete key := by
  unfold delete
  split
  · rename_i hkey
    exact Lru.ext rfl (others_toLru_none hkey).symm
  · rename_i el hkey
    exact Lru.ext rfl (others_toLru hkey).symm

/-! ## What is in memory -/

theorem get_fst : (m.get key).1 = m.peek key := by
  rw [get_toLru.1, peek_toLru]

theorem peek_get {k : GoString} : (m.get key).2.peek k = m.peek k := by
  rw [← peek_toLru, get_toLru.2, Lru.peek_touch, peek_toLru]

theorem peek_delete {k : GoString} : (m.delete key).peek k = if k = key then none else m.peek k := by
  rw [← peek_toLru, delete_toLru, Lru.peek_delete, peek_toLru]

theorem peek_put_self (hmax : 0 < m.max) (ent : V) : (m.put key ent).peek key = some ent := by
  rw [← peek_toLru, put_toLru]
  exact Lru.peek_put_self hmax

theorem peek_of_put {k : GoString} {ent e : V} (h : (m.put key ent).peek k = some e) :
    (k = key ∧ e = ent) ∨ k ≠ key ∧ m.peek k = some e := by
  rw [← peek_toLru, put_toLru] at h
  rw [← peek_toLru]
  exact Lru.peek_of_put h

theorem peek_put_fits {k : GoString} (hfits : (insert key m.toLru.keys.toFinset).card ≤ m.max) (ent : V) :
    (m.put key ent).peek k = if k = key then some ent else m.peek k := by
  rw [← peek_toLru, put_toLru, Lru.peek_put_fits hfits, peek_toLru]

@[simp] theorem max_get : (m.get key).2.max = m.max := by
  unfold get
  split
  · rfl
  · split <;> rfl

@[simp] theorem max_put (ent : V) : (m.put key ent).max = m.max := by
  unfold put
  split <;> rfl

@[simp] theorem max_delete : (m.delete key).max = m.max := by
  unfold delete
  split <;> rfl

theorem mem_keys : key ∈ m.keys ↔ m.peek key ≠ none := by
  rw [keys, ← AList.mem_keys, ← AList.lookup_isSome, Option.isSome_iff_ne_none]
  exact not_congr lookup_eq_none

end lru

end MemCache

end Ploykit.Renderx

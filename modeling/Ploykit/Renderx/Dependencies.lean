import Ploykit.Renderx.Selection

/-!
# Dependencies

`RegisterDep` and the loop of `AffectedPatterns` of `platform/renderx/loader.go`. A registration
that panics gives no registry.
-/

namespace Ploykit.Renderx

open Lib GoString

namespace Registry

variable {Props : Type} (r : Registry Props)

def registerDep (pagePattern dependsOnPattern : Path) : Option (Registry Props) :=
  if ¬ validPattern pagePattern ∨ ¬ validPattern dependsOnPattern ∨ pagePattern = dependsOnPattern then none
  else if pagePattern ∈ r.dependents dependsOnPattern then some r
  else some { r with deps := r.deps.insert dependsOnPattern (r.dependents dependsOnPattern ++ [pagePattern]) }

/-- Registrations in this order, each of a page and what it depends on. -/
def registerDeps (calls : List (Path × Path)) : Option (Registry Props) := calls.foldlM (fun r c => r.registerDep c.1 c.2) r

variable {r} {r' : Registry Props} {page dep x y : Path}

theorem registerDep_dependents (h : r.registerDep page dep = some r') :
    y ∈ r'.dependents x ↔ y ∈ r.dependents x ∨ x = dep ∧ y = page := by
  unfold registerDep at h
  split at h
  · cases h
  · split at h
    · rename_i hmem
      cases h
      refine ⟨.inl, fun h => h.elim id ?_⟩
      rintro ⟨rfl, rfl⟩
      exact hmem
    · cases h
      by_cases hx : x = dep
      · subst hx
        simp [dependents]
      · simp [dependents, AList.lookup_insert_ne hx, hx]

/-- The edges are those that were registered. -/
theorem registerDeps_dependents {calls : List (Path × Path)} (h : r.registerDeps calls = some r') :
    y ∈ r'.dependents x ↔ y ∈ r.dependents x ∨ (y, x) ∈ calls := by
  induction calls generalizing r with
  | nil =>
    cases h
    simp
  | cons c calls ih =>
    obtain ⟨page, dep⟩ := c
    obtain ⟨r₁, hfirst, hrest⟩ := Option.bind_eq_some_iff.1 (show (r.registerDep page dep).bind _ = some r' from h)
    rw [ih hrest, registerDep_dependents hfirst, List.mem_cons, Prod.mk.injEq, or_assoc]
    exact or_congr_right (or_congr_left and_comm)

end Registry

/-! ## The loop -/

/-- The variables of `AffectedPatterns`. -/
structure Walk where
  out : List Path
  seen : Finset Path
  queue : List Path

namespace Walk

def start (pattern : Path) : Walk := { out := [pattern], seen := {pattern}, queue := [pattern] }

def look (w : Walk) (next : Path) : Walk :=
  if next ∈ w.seen then w else { out := w.out ++ [next], seen := insert next w.seen, queue := w.queue ++ [next] }

section walk

variable (deps : Path → List Path)

/-- A turn of the loop, if there is one more. -/
def turn (w : Walk) : Option Walk :=
  match w.queue with
  | [] => none
  | cur :: queue => some ((deps cur).foldl look { w with queue })

/-- The loop goes from one state to the other and ends there. -/
inductive Ends : Walk → Walk → Prop where
  | done {w : Walk} (h : turn deps w = none) : Ends w w
  | turn {w w₁ w' : Walk} (h : turn deps w = some w₁) (hrest : Ends w₁ w') : Ends w w'

variable {deps} {w w₁ w₂ : Walk}

theorem Ends.unique (h₁ : Ends deps w w₁) (h₂ : Ends deps w w₂) : w₁ = w₂ := by
  induction h₁ with
  | done h =>
    cases h₂ with
    | done => rfl
    | turn h' => rw [h] at h'; cases h'
  | turn h _ ih =>
    cases h₂ with
    | done h' => rw [h] at h'; cases h'
    | turn h' hrest =>
      rw [h] at h'
      cases h'
      exact ih hrest

/-- The set holds what is in the result. -/
def Marked (w : Walk) : Prop := ∀ x, x ∈ w.seen ↔ x ∈ w.out

theorem look_all (h : w.Marked) (nexts : List Path) :
    (nexts.foldl look w).Marked ∧ (nexts.foldl look w).out = w.out ++ unseen w.out nexts ∧
      (nexts.foldl look w).queue = w.queue ++ unseen w.out nexts := by
  induction nexts generalizing w with
  | nil => simp [unseen, h]
  | cons next nexts ih =>
    rw [List.foldl_cons, unseen]
    by_cases hnext : next ∈ w.out
    · have hlook : w.look next = w := if_pos ((h next).2 hnext)
      rw [hlook, if_pos hnext]
      exact ih h
    · have hlook : w.look next = { out := w.out ++ [next], seen := insert next w.seen, queue := w.queue ++ [next] } :=
        if_neg fun hseen => hnext ((h next).1 hseen)
      have hmarked : (w.look next).Marked := by
        intro x
        rw [hlook, Finset.mem_insert, h x, List.mem_append, List.mem_singleton, or_comm]
      obtain ⟨hm, hout, hqueue⟩ := ih hmarked
      rw [hlook] at hm hout hqueue ⊢
      rw [if_neg hnext]
      refine ⟨hm, ?_, ?_⟩
      · rw [hout, List.append_assoc, List.singleton_append]
      · rw [hqueue, List.append_assoc, List.singleton_append]

/-- Every walk ends: each turn takes a pattern from the queue, and each pattern comes into it once. It finds what `explore` does. -/
theorem ends_of_explored {N : Finset Path} (hnodes : ∀ x, ∀ y ∈ deps x, y ∈ N) {pattern : Path} {fuel : Nat} (hmarked : w.Marked)
    (h : Explored deps pattern w.queue w.out) (hhead : w.out.head? = some pattern) (hout : ∀ x ∈ w.out, x ∈ N)
    (hfuel : N.card + w.queue.length ≤ fuel + w.out.length) :
    ∃ w', Ends deps w w' ∧ Explored deps pattern [] w'.out ∧ w'.out.head? = some pattern ∧ explore deps fuel w.queue w.out = w'.out := by
  induction fuel generalizing w with
  | zero =>
    have hcard : w.out.length ≤ N.card := by
      rw [← List.toFinset_card_of_nodup h.nodup]
      exact Finset.card_le_card fun x hx => hout x (List.mem_toFinset.1 hx)
    have hempty : w.queue = [] := List.length_eq_zero_iff.1 (by omega)
    rw [hempty] at h
    refine ⟨w, .done ?_, h, hhead, rfl⟩
    rw [turn, hempty]
  | succ fuel ih =>
    cases hqueue : w.queue with
    | nil =>
      rw [hqueue] at h
      refine ⟨w, .done ?_, h, hhead, rfl⟩
      rw [turn, hqueue]
    | cons cur queue =>
      rw [hqueue] at h hfuel
      have hturn : turn deps w = some ((deps cur).foldl look { w with queue }) := by rw [turn, hqueue]
      have hw : ({ w with queue } : Walk).Marked := hmarked
      obtain ⟨hm, hout', hqueue'⟩ := look_all hw (deps cur)
      have hstep := h.step
      obtain ⟨w', hends, hexplored, hhead', heq⟩ := ih hm (by rw [hout', hqueue']; exact hstep) (by
        rw [hout', List.head?_append, hhead]
        rfl) (fun x hx => by
          rw [hout'] at hx
          cases List.mem_append.1 hx with
          | inl hold => exact hout x hold
          | inr hnew => exact hnodes cur x (mem_unseen.1 hnew).1) (by
        rw [hout', hqueue']
        simp only [List.length_append, List.length_cons] at hfuel ⊢
        omega)
      rw [hout', hqueue'] at heq
      exact ⟨w', .turn hturn hends, hexplored, hhead', heq⟩

theorem ends {N : Finset Path} (hnodes : ∀ x, ∀ y ∈ deps x, y ∈ N) (pattern : Path) {fuel : Nat} (hfuel : N.card + 1 ≤ fuel) :
    ∃ w', Ends deps (start pattern) w' ∧ Explored deps pattern [] w'.out ∧ w'.out.head? = some pattern ∧
      explore deps fuel [pattern] [pattern] = w'.out := by
  have hstart : Explored deps pattern [pattern] [pattern] :=
    ⟨List.nodup_singleton _, List.mem_singleton_self _, fun _ h => h, fun y hy => by rw [List.mem_singleton.1 hy], fun _ h => .inl h⟩
  have hmarked : (start pattern).Marked := fun x => Finset.mem_singleton.trans List.mem_singleton.symm
  have hcard := Finset.card_insert_le pattern N
  refine ends_of_explored (N := insert pattern N) (fun x y hy => Finset.mem_insert_of_mem (hnodes x y hy)) hmarked hstart rfl (fun x hx => ?_)
    (Nat.add_le_add_right (hcard.trans hfuel) 1)
  rw [List.mem_singleton.1 hx]
  exact Finset.mem_insert_self _ _

end walk

end Walk

theorem Registry.dependents_mem {Props : Type} (r : Registry Props) {x y : Path} (hy : y ∈ r.dependents x) : y ∈ r.allDependents.toFinset := by
  rw [List.mem_toFinset, Registry.allDependents, List.mem_flatMap]
  cases hx : r.deps.lookup x with
  | none =>
    rw [Registry.dependents, hx] at hy
    cases hy
  | some pages =>
    rw [Registry.dependents, hx] at hy
    exact ⟨⟨x, pages⟩, AList.mem_lookup_iff.1 hx, hy⟩

/-- After any registrations the loop of `AffectedPatterns` ends, in one way, with the pattern and then each page that can be reached
from it over the registered edges, once. -/
theorem affectedPatterns_closure {Props : Type} {paths : AList fun _ : Path => Except LoadErr (List Params)}
    {loaders : AList fun _ : Path => Params → Except LoadErr Props} {calls : List (Path × Path)} {r : Registry Props}
    (hcalls : ({ paths, loaders, deps := ∅ } : Registry Props).registerDeps calls = some r) (pattern : Path) :
    ∃ w rest, Walk.Ends r.dependents (.start pattern) w ∧ (∀ w', Walk.Ends r.dependents (.start pattern) w' → w' = w) ∧
      w.out = r.affectedPatterns pattern ∧ w.out = pattern :: rest ∧ w.out.Nodup ∧
      ∀ p, p ∈ w.out ↔ Relation.ReflTransGen (fun x y => (y, x) ∈ calls) pattern p := by
  have hedges : (fun x y => y ∈ r.dependents x) = fun x y => (y, x) ∈ calls := by
    funext x y
    refine propext ((Registry.registerDeps_dependents hcalls).trans (or_iff_right ?_))
    exact List.not_mem_nil
  obtain ⟨w, hends, hexplored, hhead, heq⟩ := Walk.ends (fun x y => r.dependents_mem) pattern
    (Nat.succ_le_succ (List.toFinset_card_le r.allDependents))
  refine ⟨w, w.out.tail, hends, fun w' h' => h'.unique hends, heq.symm, (List.cons_head?_tail hhead).symm, hexplored.nodup, fun p => ?_⟩
  rw [hexplored.mem_iff, hedges]

/-- Two pages that depend on each other, and one that depends on both. -/
theorem affectedPatterns_cycle : ∃ (r : Registry Unit) (w : Walk) (rest : List Path), Walk.Ends r.dependents (.start (lit "/a")) w ∧
    w.out = lit "/a" :: rest ∧ w.out.Nodup ∧ lit "/c" ∈ w.out := by
  have hcalls : ({ paths := ∅, loaders := ∅, deps := ∅ } : Registry Unit).registerDeps
      [(lit "/b", lit "/a"), (lit "/a", lit "/b"), (lit "/c", lit "/a"), (lit "/c", lit "/b")] = some _ := rfl
  obtain ⟨w, rest, hends, -, -, hout, hnodup, hmem⟩ := affectedPatterns_closure hcalls (lit "/a")
  exact ⟨_, w, rest, hends, hout, hnodup, (hmem _).2 (.single (by decide))⟩

end Ploykit.Renderx

import Mathlib.Data.Finset.Card

/-!
# Worklists

`explore` goes on from the nodes of a queue and puts in it what it has not come by before.
With as much fuel as there are nodes it finds what can be reached, and nothing else.
-/

namespace Ploykit.Lib

variable {V : Type} [DecidableEq V] (next : V → List V)

/-- The nodes of a list that have not been seen, each once. -/
def unseen (seen : List V) : List V → List V
  | [] => []
  | x :: xs => if x ∈ seen then unseen seen xs else x :: unseen (seen ++ [x]) xs

/-- The queue and what has been seen, in the order in which it was. -/
def explore : Nat → List V → List V → List V
  | 0, _, seen => seen
  | _ + 1, [], seen => seen
  | fuel + 1, x :: queue, seen => explore fuel (queue ++ unseen seen (next x)) (seen ++ unseen seen (next x))

section unseen

theorem mem_unseen {seen xs : List V} {y : V} : y ∈ unseen seen xs ↔ y ∈ xs ∧ y ∉ seen := by
  induction xs generalizing seen with
  | nil => simp [unseen]
  | cons x xs ih =>
    rw [unseen]
    split
    · rename_i hx
      rw [ih, List.mem_cons]
      refine and_congr_left fun hy => ⟨.inr, fun h => h.resolve_left ?_⟩
      rintro rfl
      exact hy hx
    · rename_i hx
      rw [List.mem_cons, ih, List.mem_cons, List.mem_append, List.mem_singleton]
      constructor
      · rintro (rfl | ⟨hy, hnot⟩)
        · exact ⟨.inl rfl, hx⟩
        · exact ⟨.inr hy, fun hs => hnot (.inl hs)⟩
      · rintro ⟨hy, hs⟩
        rcases eq_or_ne y x with heq | hne
        · exact .inl heq
        · exact .inr ⟨hy.resolve_left hne, fun h => h.elim hs hne⟩

theorem nodup_seen {seen xs : List V} (h : seen.Nodup) : (seen ++ unseen seen xs).Nodup := by
  induction xs generalizing seen with
  | nil => simpa [unseen] using h
  | cons x xs ih =>
    rw [unseen]
    split
    · exact ih h
    · rename_i hx
      have hone : (seen ++ [x]).Nodup := List.nodup_append.2 ⟨h, List.nodup_singleton x, fun a ha b hb heq => by
        rw [List.mem_singleton.1 hb] at heq
        exact hx (heq ▸ ha)⟩
      have hrest := ih hone
      rwa [List.append_assoc, List.singleton_append] at hrest

end unseen

/-- What has been seen can be reached, and what it leads to has been seen too or is still to be looked at. -/
structure Explored (start : V) (queue seen : List V) : Prop where
  nodup : seen.Nodup
  first : start ∈ seen
  queued : ∀ x ∈ queue, x ∈ seen
  reached : ∀ x ∈ seen, Relation.ReflTransGen (fun x y => y ∈ next x) start x
  closed : ∀ x ∈ seen, x ∈ queue ∨ ∀ y ∈ next x, y ∈ seen

variable {next} {start : V} {queue seen : List V}

theorem Explored.step {x : V} (h : Explored next start (x :: queue) seen) :
    Explored next start (queue ++ unseen seen (next x)) (seen ++ unseen seen (next x)) where
  nodup := nodup_seen h.nodup
  first := List.mem_append_left _ h.first
  queued y hy := by
    cases List.mem_append.1 hy with
    | inl hq => exact List.mem_append_left _ (h.queued y (List.mem_cons_of_mem x hq))
    | inr hnew => exact List.mem_append_right _ hnew
  reached y hy := by
    cases List.mem_append.1 hy with
    | inl hs => exact h.reached y hs
    | inr hnew => exact (h.reached x (h.queued x List.mem_cons_self)).tail (mem_unseen.1 hnew).1
  closed y hy := by
    have hx : ∀ z ∈ next x, z ∈ seen ++ unseen seen (next x) := fun z hz => by
      by_cases hs : z ∈ seen
      · exact List.mem_append_left _ hs
      · exact List.mem_append_right _ (mem_unseen.2 ⟨hz, hs⟩)
    cases List.mem_append.1 hy with
    | inr hnew => exact .inl (List.mem_append_right _ hnew)
    | inl hs =>
      cases h.closed y hs with
      | inr hclosed => exact .inr fun z hz => List.mem_append_left _ (hclosed z hz)
      | inl hq =>
        cases List.mem_cons.1 hq with
        | inl heq => exact .inr (heq ▸ hx)
        | inr hq => exact .inl (List.mem_append_left _ hq)

omit [DecidableEq V] in
/-- Where nothing is left to look at, all that can be reached has been seen. -/
theorem Explored.mem_iff (h : Explored next start [] seen) {x : V} :
    x ∈ seen ↔ Relation.ReflTransGen (fun x y => y ∈ next x) start x := by
  refine ⟨h.reached x, fun hreach => ?_⟩
  induction hreach with
  | refl => exact h.first
  | tail _ hnext ih => exact ((h.closed _ ih).resolve_left List.not_mem_nil) _ hnext

end Ploykit.Lib

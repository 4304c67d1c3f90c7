import Mathlib.Data.List.Forall2

/-!
# Checks

A check is a computation in `Except ε Unit`. Checks are written one after the other,
and each of them passes where the whole passes.
-/

namespace Ploykit.Lib.Checks

variable {ε ε' α : Type} {c : Prop} [Decidable c] {err : ε} {x : Except ε Unit} {y : Except ε α}

/-- `if c { return err }` -/
def refuseIf (c : Prop) [Decidable c] (err : ε) : Except ε Unit := if c then .error err else .ok ()

@[simp] theorem refuseIf_ok : refuseIf c err = .ok () ↔ ¬ c := by
  unfold refuseIf
  split
  · exact ⟨nofun, fun h => absurd ‹c› h⟩
  · exact ⟨fun _ => ‹¬ c›, fun _ => rfl⟩

@[simp] theorem seq_ok {a : α} : (x >>= fun _ => y) = .ok a ↔ x = .ok () ∧ y = .ok a := by
  cases x with
  | error e => exact ⟨nofun, fun h => nomatch h.1⟩
  | ok u => exact ⟨fun h => ⟨rfl, h⟩, And.right⟩

@[simp] theorem mapError_error {f : ε → ε'} (e : ε) : (Except.error e : Except ε α).mapError f = .error (f e) := rfl

@[simp] theorem mapError_value {f : ε → ε'} (a : α) : (Except.ok a : Except ε α).mapError f = .ok a := rfl

@[simp] theorem mapError_ok {f : ε → ε'} {a : α} : y.mapError f = .ok a ↔ y = .ok a := by
  cases y with
  | error e => exact ⟨nofun, nofun⟩
  | ok b => exact ⟨fun h => by cases h; rfl, fun h => by cases h; rfl⟩

/-- A check of a list passes where it passes for every member. -/
@[simp] theorem forM_ok {β : Type} {check : β → Except ε Unit} {l : List β} :
    l.forM check = .ok () ↔ ∀ b ∈ l, check b = .ok () := by
  induction l with
  | nil => exact ⟨fun _ b hb => (List.not_mem_nil hb).elim, fun _ => rfl⟩
  | cons b l ih =>
    rw [List.forall_mem_cons, ← ih]
    exact seq_ok

/-- A list is read where each of its members is. -/
theorem mapM_ok {β : Type} {read : β → Except ε α} {l : List β} {as : List α} :
    l.mapM read = .ok as ↔ List.Forall₂ (fun b a => read b = .ok a) l as := by
  induction l generalizing as with
  | nil =>
    rw [List.mapM_nil, List.forall₂_nil_left_iff]
    exact ⟨fun h => (Except.ok.inj h).symm, fun h => congrArg Except.ok h.symm⟩
  | cons b l ih =>
    rw [List.mapM_cons, List.forall₂_cons_left_iff]
    cases hb : read b with
    | error err => exact ⟨nofun, fun ⟨a, _, h, _⟩ => nomatch h⟩
    | ok a =>
      cases hl : l.mapM read with
      | error err =>
        refine ⟨nofun, fun ⟨a', as', _, hrest, _⟩ => ?_⟩
        rw [ih.2 hrest] at hl
        cases hl
      | ok as' =>
        constructor
        · intro h
          cases h
          exact ⟨a, as', rfl, ih.1 hl, rfl⟩
        · rintro ⟨a', as'', ha, hrest, rfl⟩
          cases ha
          cases hl.symm.trans (ih.2 hrest)
          rfl

theorem exists_mapM_ok {β : Type} {read : β → Except ε α} {l : List β} :
    (∃ as, l.mapM read = .ok as) ↔ ∀ b ∈ l, ∃ a, read b = .ok a := by
  simp only [mapM_ok]
  constructor
  · rintro ⟨as, h⟩ b hb
    obtain ⟨i, hi, rfl⟩ := List.getElem_of_mem hb
    exact ⟨_, h.get hi (h.length_eq ▸ hi)⟩
  · intro h
    induction l with
    | nil => exact ⟨[], .nil⟩
    | cons b l ih =>
      obtain ⟨a, ha⟩ := h b (.head _)
      obtain ⟨as, has⟩ := ih fun b' hb' => h b' (.tail _ hb')
      exact ⟨a :: as, .cons ha has⟩

/-- A list is read by a partial function where each of its members is. -/
theorem mapM_some {β : Type} {f : β → Option α} {l : List β} {as : List α} :
    l.mapM f = some as ↔ List.Forall₂ (fun b a => f b = some a) l as := by
  induction l generalizing as with
  | nil =>
    rw [List.mapM_nil, List.forall₂_nil_left_iff]
    exact ⟨fun h => (Option.some.inj h).symm, fun h => congrArg some h.symm⟩
  | cons b l ih =>
    simp only [List.mapM_cons, List.forall₂_cons_left_iff, Option.bind_eq_bind, Option.bind_eq_some_iff, Option.pure_def,
      Option.some.injEq, ← ih]
    constructor
    · rintro ⟨a, ha, as', has, rfl⟩
      exact ⟨a, as', ha, has, rfl⟩
    · rintro ⟨a, as', ha, has, rfl⟩
      exact ⟨a, ha, as', has, rfl⟩

section read

variable {β γ : Type} {read : β → Except ε α} {l : List β} {as : List α}

/-- What has been read was read from a member. -/
theorem mapM_mem (h : l.mapM read = .ok as) {a : α} (ha : a ∈ as) : ∃ b ∈ l, read b = .ok a := by
  have hall := mapM_ok.1 h
  clear h
  induction hall with
  | nil => cases ha
  | cons hread _ ih =>
    cases ha with
    | head => exact ⟨_, List.mem_cons_self, hread⟩
    | tail _ ha =>
      obtain ⟨b, hb, hread'⟩ := ih ha
      exact ⟨b, List.mem_cons_of_mem _ hb, hread'⟩

/-- Every member has been read. -/
theorem mapM_mem_of (h : l.mapM read = .ok as) {b : β} (hb : b ∈ l) : ∃ a ∈ as, read b = .ok a := by
  have hall := mapM_ok.1 h
  clear h
  induction hall with
  | nil => cases hb
  | cons hread _ ih =>
    cases hb with
    | head => exact ⟨_, List.mem_cons_self, hread⟩
    | tail _ hb =>
      obtain ⟨a, ha, hread'⟩ := ih hb
      exact ⟨a, List.mem_cons_of_mem _ ha, hread'⟩

theorem mapM_map (h : l.mapM read = .ok as) {f : β → γ} {g : α → γ} (hfg : ∀ b a, read b = .ok a → f b = g a) :
    l.map f = as.map g := by
  have hall := mapM_ok.1 h
  clear h
  induction hall with
  | nil => rfl
  | cons hread _ ih => rw [List.map_cons, List.map_cons, hfg _ _ hread, ih]

end read

end Ploykit.Lib.Checks

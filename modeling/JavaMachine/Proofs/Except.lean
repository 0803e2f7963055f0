import Mathlib

/-! # Computations that end well

When a computation that may fail, or one that visits a list, ends with a given result. -/

namespace Except

variable {ε α β : Type}

theorem bind_eq_ok_iff {action : Except ε α} {next : α → Except ε β} {result : β} :
    (action >>= next) = .ok result ↔
      ∃ first, action = .ok first ∧ next first = .ok result := by
  cases action with
  | error error => exact ⟨nofun, nofun⟩
  | ok first =>
    constructor
    · intro ended
      exact ⟨first, rfl, ended⟩
    · rintro ⟨_, ⟨⟩, ended⟩
      exact ended

theorem check_bind_eq_ok_iff {check : Except ε Unit} {next : Unit → Except ε β} {result : β} :
    (check >>= next) = .ok result ↔ check = .ok () ∧ next () = .ok result := by
  rw [bind_eq_ok_iff]
  constructor
  · rintro ⟨⟨⟩, passed, ended⟩
    exact ⟨passed, ended⟩
  · rintro ⟨passed, ended⟩
    exact ⟨(), passed, ended⟩

theorem pure_eq_ok_iff {found result : α} :
    (pure found : Except ε α) = .ok result ↔ found = result := by
  change (Except.ok found : Except ε α) = _ ↔ _
  rw [ok.injEq]

theorem forM_eq_ok_iff {visit : α → Except ε Unit} {items : List α} :
    items.forM visit = .ok () ↔ ∀ item ∈ items, visit item = .ok () := by
  rw [List.forM_eq_forM]
  induction items with
  | nil => exact ⟨fun _ => nofun, fun _ => rfl⟩
  | cons first rest ih =>
    rw [List.forM_cons, check_bind_eq_ok_iff, List.forall_mem_cons, ih]

/-- The results of visiting a list come from its items. -/
theorem exists_of_mem_mapM {change : α → Except ε β} {items : List α} {results : List β}
    (ended : items.mapM change = .ok results) {result : β} (member : result ∈ results) :
    ∃ item ∈ items, change item = .ok result := by
  induction items generalizing results with
  | nil =>
    rw [List.mapM_nil, pure_eq_ok_iff] at ended
    rw [← ended] at member
    cases member
  | cons first rest ih =>
    simp only [List.mapM_cons, bind_eq_ok_iff, pure_eq_ok_iff] at ended
    obtain ⟨head, changed, others, endedToo, rfl⟩ := ended
    rcases List.mem_cons.mp member with rfl | member
    · exact ⟨first, List.mem_cons_self, changed⟩
    · obtain ⟨item, inside, changed⟩ := ih endedToo member
      exact ⟨item, List.mem_cons_of_mem first inside, changed⟩

/-- What is related to the items of a list is related to the results of visiting them. -/
theorem forall₂_of_mapM {γ : Type} {change : α → Except ε β} {related : γ → α → Prop}
    {related' : γ → β → Prop}
    (each : ∀ given item result, related given item → change item = .ok result →
      related' given result)
    {givens : List γ} {items : List α} {results : List β} (all : List.Forall₂ related givens items)
    (ended : items.mapM change = .ok results) : List.Forall₂ related' givens results := by
  induction all generalizing results with
  | nil =>
    rw [List.mapM_nil, pure_eq_ok_iff] at ended
    exact ended ▸ .nil
  | cons here _ ih =>
    simp only [List.mapM_cons, bind_eq_ok_iff, pure_eq_ok_iff] at ended
    obtain ⟨head, changed, others, endedToo, rfl⟩ := ended
    exact .cons (each _ _ _ here changed) (ih endedToo)

/-- If what succeeds on good items is exactly undone by a function, the same holds of lists. -/
theorem mapM_eq_ok_iff_of_undone {change : α → Except ε β} {undo : β → α} {good : α → Prop}
    {good' : β → Prop}
    (undone : ∀ item result, good item ∧ change item = .ok result ↔
      good' result ∧ item = undo result)
    {items : List α} {results : List β} :
    (∀ item ∈ items, good item) ∧ items.mapM change = .ok results ↔
      (∀ result ∈ results, good' result) ∧ items = results.map undo := by
  induction items generalizing results with
  | nil =>
    rw [List.mapM_nil, pure_eq_ok_iff]
    constructor
    · rintro ⟨-, rfl⟩
      exact ⟨nofun, rfl⟩
    · rintro ⟨-, same⟩
      exact ⟨nofun, (List.map_eq_nil_iff.mp same.symm).symm⟩
  | cons first rest ih =>
    simp only [List.mapM_cons, bind_eq_ok_iff, pure_eq_ok_iff, List.forall_mem_cons]
    constructor
    · rintro ⟨⟨head, tail⟩, result, changed, others, changedToo, rfl⟩
      obtain ⟨head', rfl⟩ := (undone _ _).mp ⟨head, changed⟩
      obtain ⟨tail', rfl⟩ := ih.mp ⟨tail, changedToo⟩
      exact ⟨List.forall_mem_cons.mpr ⟨head', tail'⟩, rfl⟩
    · rintro ⟨all, same⟩
      cases results with
      | nil => cases same
      | cons result others =>
        obtain ⟨rfl, behind⟩ := List.cons.inj same
        obtain ⟨head', tail'⟩ := List.forall_mem_cons.mp all
        obtain ⟨head, changed⟩ := (undone _ _).mpr ⟨head', rfl⟩
        obtain ⟨tail, changedToo⟩ := ih.mpr ⟨tail', behind⟩
        exact ⟨⟨head, tail⟩, result, changed, others, changedToo, rfl⟩

end Except

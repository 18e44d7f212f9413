import Mathlib.Logic.Function.Basic

/-!
# What is under way

The operations under way are a partial map from their names to what each of them is about to do.  An
operation that starts, goes on or ends updates the map at its own name; `update_eq_some` says what
is there afterwards, and the other lemmas what that means for a property of some operation and of
all of them.
-/

set_option autoImplicit false

universe u v

namespace Tasks

variable {ι : Type u} {φ : Type v} [DecidableEq ι] {tasks : ι → Option φ} {i j : ι}
  {task : Option φ} {x : φ}

theorem update_eq_some : Function.update tasks i task j = some x ↔
    j = i ∧ task = some x ∨ j ≠ i ∧ tasks j = some x := by
  by_cases heq : j = i
  · subst heq
    simp
  · simp [heq]

/-- An operation that goes on as `x`, if it does, and the others as they were. -/
theorem forall_update {P : ι → φ → Prop} (hnew : ∀ x, task = some x → P i x)
    (hold : ∀ j x, j ≠ i → tasks j = some x → P j x) :
    ∀ j x, Function.update tasks i task j = some x → P j x := by
  intro j x hx
  rcases update_eq_some.1 hx with ⟨rfl, htask⟩ | ⟨hne, hx⟩
  · exact hnew x htask
  · exact hold j x hne hx

/-- An operation with a property is still there, unless it was the one that went on. -/
theorem exists_update {P : φ → Prop} (hgone : ∀ x, tasks i = some x → P x →
      ∃ y, task = some y ∧ P y) (h : ∃ j x, tasks j = some x ∧ P x) :
    ∃ j x, Function.update tasks i task j = some x ∧ P x := by
  obtain ⟨j, x, hx, hP⟩ := h
  by_cases heq : j = i
  · subst heq
    obtain ⟨y, hy, hP⟩ := hgone x hx hP
    exact ⟨j, y, update_eq_some.2 (Or.inl ⟨rfl, hy⟩), hP⟩
  · exact ⟨j, x, update_eq_some.2 (Or.inr ⟨heq, hx⟩), hP⟩

/-- What goes on as something with a property. -/
theorem exists_update_self {P : φ → Prop} (htask : task = some x) (hP : P x) :
    ∃ j x, Function.update tasks i task j = some x ∧ P x :=
  ⟨i, x, update_eq_some.2 (Or.inl ⟨rfl, htask⟩), hP⟩

end Tasks

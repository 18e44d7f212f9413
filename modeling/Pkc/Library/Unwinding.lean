import Pkc.Library.Runs

/-!
# Runs without what an observer does not see

Some of the actions of a system are `visible`, and a relation says when two states look the same.
If an action that is not visible leads to a state that looks the same, and a visible one is possible
in every state that looks the same and leads to states that look the same again, then the actions
that are not visible can be left out of a run, and two runs with the same visible actions end in
states that look the same.
-/

set_option autoImplicit false

namespace Runs

universe u v

variable {σ : Type u} {α : Type v} {step : σ → α → Option σ} {ok : σ → α → Prop}
  {visible : α → Bool} {Same : σ → σ → Prop}

/-- The two conditions on one step.  `Same s s'` reads: `s'` is what is left of `s`. -/
structure Unwinding (step : σ → α → Option σ) (ok : σ → α → Prop) (visible : α → Bool)
    (Same : σ → σ → Prop) : Prop where
  hidden : ∀ {s s₀ t a}, Same s s₀ → ok s a → visible a = false → step s a = some t → Same t s₀
  shown : ∀ {s s₀ t a}, Same s s₀ → ok s a → visible a = true → step s a = some t →
    ∃ t₀, step s₀ a = some t₀ ∧ Same t t₀

/-- The run without its hidden actions. -/
theorem Unwinding.run (h : Unwinding step ok visible Same) {s s₀ t : σ} {as : List α}
    (hsame : Same s s₀) (hrun : Run step ok s as t) :
    ∃ t₀, Run step anyStep s₀ (as.filter visible) t₀ ∧ Same t t₀ := by
  induction hrun generalizing s₀ with
  | nil => exact ⟨s₀, .nil s₀, hsame⟩
  | cons hok hstep _ ih =>
    rename_i a as _
    cases hvisible : visible a with
    | false =>
      obtain ⟨t₀, hrun, ht⟩ := ih (h.hidden hsame hok hvisible hstep)
      rw [List.filter_cons_of_neg (by simp [hvisible])]
      exact ⟨t₀, hrun, ht⟩
    | true =>
      obtain ⟨s₁, hstep₀, hsame₁⟩ := h.shown hsame hok hvisible hstep
      obtain ⟨t₀, hrun, ht⟩ := ih hsame₁
      rw [List.filter_cons_of_pos hvisible]
      exact ⟨t₀, .cons trivial hstep₀ hrun, ht⟩

/-- A run is determined by its actions. -/
theorem Run.deterministic {ok' : σ → α → Prop} {s t t' : σ} {as : List α}
    (hrun : Run step ok s as t) (hrun' : Run step ok' s as t') : t = t' := by
  induction hrun with
  | nil =>
    cases hrun'
    rfl
  | cons _ hstep _ ih =>
    cases hrun' with
    | cons _ hstep' hrest =>
      rw [hstep, Option.some.injEq] at hstep'
      subst hstep'
      exact ih hrest

/-- Two runs with the same visible actions. -/
theorem Unwinding.two_runs (h : Unwinding step ok visible Same) {s s₀ t t' : σ} {as as' : List α}
    (hsame : Same s s₀) (hrun : Run step ok s as t) (hrun' : Run step ok s as' t')
    (hvisible : as.filter visible = as'.filter visible) : ∃ t₀, Same t t₀ ∧ Same t' t₀ := by
  obtain ⟨t₀, hrun₀, ht⟩ := h.run hsame hrun
  obtain ⟨t₁, hrun₁, ht'⟩ := h.run hsame hrun'
  rw [← hvisible] at hrun₁
  obtain rfl := hrun₀.deterministic hrun₁
  exact ⟨t₀, ht, ht'⟩

end Runs

import Mathlib.Logic.Basic

/-!
# Runs of a partial step function

A system is given by `step : σ → α → Option σ`: in state `s` the action `a` either is not possible
(`none`) or leads to the state `s'` (`some s'`).  An interleaving of several parties is then one
list of actions, and a statement about every interleaving is a statement about every list.

* `Run step ok s as t` says that the actions `as` lead from `s` to `t` and that every one of them
  meets the guard `ok` in the state it is taken in.  With `ok` always true these are all the runs;
  a stronger guard restricts the runs to those an environment is assumed to produce.
* `Run.invariant` is the induction that turns a step lemma into a run lemma, and
  `Run.invariant_of` is the same for a property that is only wanted of the last state.
* `exec` runs a list of actions and `Run.of_exec` makes a guarded run out of such an execution, so
  a concrete run can be found by evaluation.
-/

set_option autoImplicit false

namespace Runs

universe u v

variable {σ : Type u} {α : Type v}

/-- The actions `as` lead from `s` to `t`, each of them allowed by `ok` where it is taken. -/
inductive Run (step : σ → α → Option σ) (ok : σ → α → Prop) : σ → List α → σ → Prop
  | nil (s : σ) : Run step ok s [] s
  | cons {s s' t : σ} {a : α} {as : List α} (hok : ok s a) (hstep : step s a = some s')
      (hrun : Run step ok s' as t) : Run step ok s (a :: as) t

/-- The guard that allows everything. -/
def anyStep : σ → α → Prop := fun _ _ => True

section Induction

variable {step : σ → α → Option σ} {ok ok' : σ → α → Prop} {s t : σ} {as : List α}

/-- **From a step to a run.**  A property that every allowed step keeps holds at the end of every
run that starts with it. -/
theorem Run.invariant {I : σ → Prop}
    (hstep : ∀ s a s', I s → ok s a → step s a = some s' → I s')
    (hrun : Run step ok s as t) (hs : I s) : I t := by
  induction hrun with
  | nil => exact hs
  | cons hok hst _ ih => exact ih (hstep _ _ _ hs hok hst)

/-- The same for a consequence of the invariant. -/
theorem Run.invariant_of {I P : σ → Prop} (himp : ∀ s, I s → P s)
    (hstep : ∀ s a s', I s → ok s a → step s a = some s' → I s')
    (hrun : Run step ok s as t) (hs : I s) : P t :=
  himp t (hrun.invariant hstep hs)

/-- A run under a guard is a run under every weaker one. -/
theorem Run.mono (himp : ∀ s a, ok s a → ok' s a) (hrun : Run step ok s as t) :
    Run step ok' s as t := by
  induction hrun with
  | nil => exact .nil _
  | cons hok hst _ ih => exact .cons (himp _ _ hok) hst ih

theorem Run.append {u : σ} {bs : List α} (hrun : Run step ok s as t) (hrun' : Run step ok t bs u) :
    Run step ok s (as ++ bs) u := by
  induction hrun with
  | nil => exact hrun'
  | cons hok hst _ ih => exact .cons hok hst (ih hrun')

end Induction

/-! ## Executing a run -/

/-- The state after a list of actions, if each of them is possible. -/
def exec (step : σ → α → Option σ) : σ → List α → Option σ
  | s, [] => some s
  | s, a :: as => (step s a).bind fun s' => exec step s' as

/-- Executing a list of actions while checking a guard at each of them. -/
def execOk (step : σ → α → Option σ) (ok : σ → α → Prop) [∀ s a, Decidable (ok s a)] :
    σ → List α → Option σ
  | s, [] => some s
  | s, a :: as => if ok s a then (step s a).bind fun s' => execOk step ok s' as else none

/-- A checked execution is a guarded run. -/
theorem Run.of_execOk {step : σ → α → Option σ} {ok : σ → α → Prop} [∀ s a, Decidable (ok s a)] :
    ∀ {as : List α} {s t : σ}, execOk step ok s as = some t → Run step ok s as t
  | [], s, t, h => by
    rw [execOk, Option.some.injEq] at h
    rw [h]
    exact .nil t
  | a :: as, s, t, h => by
    rw [execOk] at h
    split at h
    · rename_i hok
      obtain ⟨s', hs', ht⟩ := Option.bind_eq_some_iff.1 h
      exact .cons hok hs' (Run.of_execOk ht)
    · cases h

/-- A plain execution is a run under the guard that allows everything. -/
theorem Run.of_exec {step : σ → α → Option σ} :
    ∀ {as : List α} {s t : σ}, exec step s as = some t → Run step anyStep s as t
  | [], s, t, h => by
    rw [exec, Option.some.injEq] at h
    rw [h]
    exact .nil t
  | a :: as, s, t, h => by
    rw [exec] at h
    obtain ⟨s', hs', ht⟩ := Option.bind_eq_some_iff.1 h
    exact .cons trivial hs' (Run.of_exec ht)

end Runs

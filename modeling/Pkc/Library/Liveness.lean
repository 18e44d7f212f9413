import Mathlib.Data.Nat.Init
import Pkc.Library.Runs

/-!
# Infinite executions and what they lead to

An execution takes a step of a partial step function at every moment, or none.  What happens sooner
or later is stated of executions that are fair: an action that stays possible is taken.

* `LeadsTo P Q`: whenever `P` holds, `Q` holds then or later.
* `leadsTo_of_fair` is the rule for one action: where `P` holds it is possible, until it is taken
  `P` goes on holding, and taking it makes `Q` true.
* `Execution.of_run` goes on from a run by doing nothing, which is fair to whatever is not possible
  where the run ends.
-/

set_option autoImplicit false

namespace Liveness

universe u v

variable {σ : Type u} {α : Type v}

/-- `action n` is what happens after moment `n`, if something does. -/
structure Execution (step : σ → α → Option σ) where
  state : Nat → σ
  action : Nat → Option α
  stays : ∀ n, action n = none → state (n + 1) = state n
  steps : ∀ n a, action n = some a → step (state n) a = some (state (n + 1))

section Rules

variable {step : σ → α → Option σ} (e : Execution step) {P Q R I : σ → Prop}

def LeadsTo (P Q : σ → Prop) : Prop := ∀ n, P (e.state n) → ∃ m, n ≤ m ∧ Q (e.state m)

/-- An action that stays possible is taken. -/
def Fair (possible : σ → Prop) (taken : α → Prop) : Prop :=
  ∀ n, (∀ m, n ≤ m → possible (e.state m)) → ∃ m a, n ≤ m ∧ e.action m = some a ∧ taken a

variable {e}

/-- What every step keeps holds at every later moment. -/
theorem Execution.stable (hstep : ∀ s a s', I s → step s a = some s' → I s') {n m : Nat}
    (hn : I (e.state n)) (hle : n ≤ m) : I (e.state m) := by
  induction m, hle using Nat.le_induction with
  | base => exact hn
  | succ m _ ih =>
    cases haction : e.action m with
    | none => rw [e.stays m haction]; exact ih
    | some a => exact hstep _ a _ ih (e.steps m a haction)

theorem LeadsTo.trans (h : LeadsTo e P Q) (h' : LeadsTo e Q R) : LeadsTo e P R := by
  intro n hn
  obtain ⟨m, hle, hm⟩ := h n hn
  obtain ⟨k, hle', hk⟩ := h' m hm
  exact ⟨k, Nat.le_trans hle hle', hk⟩

/-- `P` holds until `Q` does. -/
theorem until_of_step (hstay : ∀ s a s', P s → step s a = some s' → P s' ∨ Q s') {n : Nat}
    (hn : P (e.state n)) (hnot : ∀ m, n ≤ m → ¬ Q (e.state m)) {m : Nat} (hle : n ≤ m) :
    P (e.state m) := by
  induction m, hle using Nat.le_induction with
  | base => exact hn
  | succ m hle ih =>
    cases haction : e.action m with
    | none => rw [e.stays m haction]; exact ih
    | some a =>
      exact (hstay _ a _ ih (e.steps m a haction)).resolve_right
        (hnot (m + 1) (Nat.le_succ_of_le hle))

/-- **One fair action.** -/
theorem leadsTo_of_fair {possible : σ → Prop} {taken : α → Prop} (hfair : Fair e possible taken)
    (hstay : ∀ s a s', P s → step s a = some s' → P s' ∨ Q s') (hpossible : ∀ s, P s → possible s)
    (htaken : ∀ s a s', P s → taken a → step s a = some s' → Q s') : LeadsTo e P Q := by
  intro n hn
  refine Classical.byContradiction fun hnever => ?_
  have hnot : ∀ m, n ≤ m → ¬ Q (e.state m) := fun m hle hm => hnever ⟨m, hle, hm⟩
  obtain ⟨m, a, hle, haction, htake⟩ :=
    hfair n fun m hle => hpossible _ (until_of_step hstay hn hnot hle)
  exact hnot (m + 1) (Nat.le_succ_of_le hle)
    (htaken _ a _ (until_of_step hstay hn hnot hle) htake (e.steps m a haction))

theorem Execution.of_run {ok : σ → α → Prop} {s t : σ} {as : List α}
    (hrun : Runs.Run step ok s as t) :
    ∃ e : Execution step, e.state 0 = s ∧ ∀ n, as.length ≤ n → e.state n = t := by
  induction hrun with
  | nil s =>
    exact ⟨⟨fun _ => s, fun _ => none, fun _ _ => rfl, fun _ _ h => by cases h⟩, rfl,
      fun _ _ => rfl⟩
  | @cons s s' t a as _ hstep _ ih =>
    obtain ⟨e, hzero, hend⟩ := ih
    refine ⟨⟨fun n => n.casesOn s e.state, fun n => n.casesOn (some a) e.action, ?_, ?_⟩, rfl, ?_⟩
    · intro n hn
      cases n with
      | zero => cases hn
      | succ n => exact e.stays n hn
    · intro n b hn
      cases n with
      | zero =>
        cases hn
        exact hstep.trans (congrArg some hzero.symm)
      | succ n => exact e.steps n b hn
    · intro n hn
      cases n with
      | zero => cases hn
      | succ n => exact hend n (Nat.le_of_succ_le_succ hn)

theorem Fair.of_end {possible : σ → Prop} {taken : α → Prop} {t : σ} {k : Nat}
    (hend : ∀ n, k ≤ n → e.state n = t) (hnot : ¬ possible t) : Fair e possible taken := by
  intro n hpossible
  have hlast := hpossible (max n k) (Nat.le_max_left n k)
  rw [hend (max n k) (Nat.le_max_right n k)] at hlast
  exact absurd hlast hnot

end Rules

end Liveness

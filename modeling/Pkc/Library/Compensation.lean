import Mathlib.Tactic.TypeStar

/-!
# Actions that are undone by hand

A program changes several stores one after the other and has no transaction around them.  When one
of the changes fails, a handler may put back what has been changed, and the handler may fail too.

* An `Action` ends in a state, with the error it throws or with none.
* `andThen`, `choose`, `onError`, `logged` and `ignoring` are a sequence, a branch and three kinds
  of `catch`.
* `Wp` is what has to hold before an action for one thing to hold after it returns and another after
  it throws.  Actions are deterministic, so the rules for it are equivalences, and the question
  whether a property survives every failure comes down to a condition on which steps fail.
-/

set_option autoImplicit false

namespace Compensation

variable {σ ε : Type*}

/-- The error that is thrown, and the state in which the action ends. -/
abbrev Action (σ ε : Type*) := σ → Option ε × σ

/-- A change that cannot fail. -/
def modify (f : σ → σ) : Action σ ε := fun s => (none, f s)

def throw (e : ε) : Action σ ε := fun s => (some e, s)

/-- A step that fails or has no effect. -/
def throwIf (failed : Bool) (e : ε) : Action σ ε := fun s => (if failed then some e else none, s)

def andThen (a b : Action σ ε) : Action σ ε := fun s =>
  match a s with
  | (none, t) => b t
  | (some e, t) => (some e, t)

/-- Which of the two is run depends on the state. -/
def choose (p : σ → Prop) [DecidablePred p] (a b : Action σ ε) : Action σ ε := fun s =>
  if p s then a s else b s

/-- `try { a } catch (e) { handler; throw e }` -/
def onError (a handler : Action σ ε) : Action σ ε := fun s =>
  match a s with
  | (none, t) => (none, t)
  | (some e, t) => andThen handler (throw e) t

/-- `try { a } catch (e) { log(e) }` -/
def logged (a : Action σ ε) : Action σ ε := fun s => (none, (a s).2)

/-- `try { a } catch (e) { if (!harmless(e)) throw e }` -/
def ignoring (harmless : ε → Bool) (a : Action σ ε) : Action σ ε := fun s =>
  ((a s).1.filter fun e => !harmless e, (a s).2)

/-! ## Preconditions -/

section Preconditions

variable {a b handler : Action σ ε} {ok : σ → Prop} {err : ε → σ → Prop} {s : σ}

/-- What has to hold before the action for `ok` to hold when it returns and `err` when it throws. -/
def Wp (a : Action σ ε) (ok : σ → Prop) (err : ε → σ → Prop) (s : σ) : Prop :=
  match a s with
  | (none, t) => ok t
  | (some e, t) => err e t

@[simp] theorem wp_modify {f : σ → σ} : Wp (modify f) ok err s ↔ ok (f s) := Iff.rfl

@[simp] theorem wp_throw {e : ε} : Wp (throw e) ok err s ↔ err e s := Iff.rfl

@[simp] theorem wp_throwIf {failed : Bool} {e : ε} :
    Wp (throwIf failed e) ok err s ↔ if failed then err e s else ok s := by
  cases failed <;> rfl

@[simp] theorem wp_andThen : Wp (andThen a b) ok err s ↔ Wp a (Wp b ok err) err s := by
  unfold Wp andThen
  rcases a s with ⟨_ | e, t⟩ <;> rfl

@[simp] theorem wp_choose {p : σ → Prop} [DecidablePred p] :
    Wp (choose p a b) ok err s ↔ if p s then Wp a ok err s else Wp b ok err s := by
  by_cases h : p s <;> simp [Wp, choose, h]

@[simp] theorem wp_onError :
    Wp (onError a handler) ok err s ↔ Wp a ok (fun e => Wp handler (err e) err) s := by
  unfold Wp onError
  rcases a s with ⟨_ | e, t⟩
  · rfl
  · exact wp_andThen

@[simp] theorem wp_logged : Wp (logged a) ok err s ↔ Wp a ok (fun _ => ok) s := by
  unfold Wp logged
  rcases a s with ⟨_ | e, t⟩ <;> rfl

@[simp] theorem wp_ignoring {harmless : ε → Bool} :
    Wp (ignoring harmless a) ok err s ↔
      Wp a ok (fun e t => if harmless e then ok t else err e t) s := by
  unfold Wp ignoring
  rcases a s with ⟨_ | e, t⟩
  · rfl
  · cases h : harmless e <;> simp [Option.filter, h]

/-- Rewriting what holds afterwards. -/
theorem wp_congr {ok' : σ → Prop} {err' : ε → σ → Prop} (hok : ∀ t, ok t ↔ ok' t)
    (herr : ∀ e t, err e t ↔ err' e t) : Wp a ok err s ↔ Wp a ok' err' s := by
  unfold Wp
  rcases a s with ⟨_ | e, t⟩
  · exact hok t
  · exact herr e t

/-- A property of the state afterwards, whether or not the action throws. -/
theorem wp_state {P : σ → Prop} : Wp a P (fun _ => P) s ↔ P (a s).2 := by
  unfold Wp
  rcases a s with ⟨_ | e, t⟩ <;> rfl

end Preconditions

end Compensation

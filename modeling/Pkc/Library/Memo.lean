import Mathlib.Data.List.Basic
import Mathlib.Logic.Function.Basic

/-!
# Memoised checks

A check passes or is refused with a reason.  A memoised check remembers, under a key, that it
passed, and passes at once when it finds its key again; the keys are kept in stores of bounded size
that forget the least recently used one.  A check may run other memoised checks, so it takes the
stores along (`Check`).

* `reject`, `andThen`, `refusedAs` and `memo` make checks.
* `Stable check` says that a check passes whatever the stores hold, so its outcome owes nothing to
  them.
* `Establishes J G check` says that `G` holds when the check passes, as long as every key in the
  stores has the property `J`, and that the check keeps that property of the stores.  There is one
  rule for each way to make a check; the rule of `memo` asks that `J` of the key gives `G`.
* `Sound J check` is the case that a check that passes is stable.
* `run` is a list of checks after each other; what passes in a run of sound checks is stable.
-/

set_option autoImplicit false

namespace Memo

universe u v w

/-! ## The stores -/

section Stores

variable {ν : Type u} {κ : Type v} [DecidableEq κ]

/-- For each name of a store the keys it holds, the most recently used first. -/
abbrev Stores (ν : Type u) (κ : Type v) := ν → List κ

def Stores.empty : Stores ν κ := fun _ => []

/-- The store holds the key. -/
def Stores.get (stores : Stores ν κ) (key : ν × κ) : Bool := key.2 ∈ stores key.1

variable [DecidableEq ν]

/-- The key becomes the most recently used. -/
def Stores.touch (stores : Stores ν κ) (key : ν × κ) : Stores ν κ :=
  Function.update stores key.1 (key.2 :: (stores key.1).erase key.2)

/-- The key is added; a store that is full forgets the key used least recently. -/
def Stores.set (max : ν → Nat) (stores : Stores ν κ) (key : ν × κ) : Stores ν κ :=
  Function.update stores key.1 ((key.2 :: (stores key.1).erase key.2).take (max key.1))

theorem get_of_get_touch {stores : Stores ν κ} {key k : ν × κ}
    (h : (stores.touch key).get k = true) : k = key ∨ stores.get k = true := by
  obtain ⟨name, k⟩ := k
  rw [Stores.get, decide_eq_true_eq, Stores.touch] at h
  by_cases hname : name = key.1
  · subst hname
    rw [Function.update_self, List.mem_cons] at h
    rcases h with h | h
    · exact .inl (Prod.ext rfl h)
    · exact .inr (decide_eq_true (List.mem_of_mem_erase h))
  · rw [Function.update_of_ne hname] at h
    exact .inr (decide_eq_true h)

theorem get_of_get_set {max : ν → Nat} {stores : Stores ν κ} {key k : ν × κ}
    (h : (stores.set max key).get k = true) : k = key ∨ stores.get k = true := by
  obtain ⟨name, k⟩ := k
  refine get_of_get_touch ?_
  rw [Stores.get, decide_eq_true_eq, Stores.set] at h
  rw [Stores.get, decide_eq_true_eq, Stores.touch]
  by_cases hname : name = key.1
  · subst hname
    rw [Function.update_self] at h ⊢
    exact List.mem_of_mem_take h
  · rw [Function.update_of_ne hname] at h ⊢
    exact h

end Stores

/-! ## Checks -/

/-- A check runs on the stores and passes or is refused. -/
abbrev Check (ν : Type u) (κ : Type v) (ε : Type w) := Stores ν κ → Except ε Unit × Stores ν κ

section Checks

variable {ν : Type u} {κ : Type v} {ε : Type w}

/-- A check that needs no store: refused for a reason, if there is one. -/
def reject (reason : Option ε) : Check ν κ ε := fun stores =>
  match reason with
  | some e => (.error e, stores)
  | none => (.ok (), stores)

/-- The second check runs if the first one passes. -/
def andThen (first second : Check ν κ ε) : Check ν κ ε := fun stores =>
  match first stores with
  | (.error e, stores') => (.error e, stores')
  | (.ok (), stores') => second stores'

/-- The check is refused with another reason, if it is refused. -/
def refusedAs (reason : ε) (check : Check ν κ ε) : Check ν κ ε := fun stores =>
  match check stores with
  | (.error _, stores') => (.error reason, stores')
  | (.ok (), stores') => (.ok (), stores')

/-- The check under a key, if it has one: it is only run if its key is not found or not looked up,
and its key is added if it passes. -/
def memo [DecidableEq ν] [DecidableEq κ] (max : ν → Nat) (lookup : Bool) (key : Option (ν × κ))
    (check : Check ν κ ε) : Check ν κ ε := fun stores =>
  match key with
  | none => check stores
  | some key =>
    if lookup && stores.get key then (.ok (), stores.touch key)
    else
      match check stores with
      | (.error e, stores') => (.error e, stores')
      | (.ok (), stores') => (.ok (), stores'.set max key)

/-- The check passes from every store. -/
def Stable (check : Check ν κ ε) : Prop := ∀ stores, (check stores).1 = .ok ()

theorem stable_reject : Stable (reject none : Check ν κ ε) := fun _ => rfl

theorem reject_none_andThen {check : Check ν κ ε} : andThen (reject none) check = check := rfl

theorem Stable.andThen {first second : Check ν κ ε} (hfirst : Stable first)
    (hsecond : Stable second) : Stable (andThen first second) := by
  intro stores
  have hok := hfirst stores
  rw [Memo.andThen]
  split
  · rename_i heq
    rw [heq] at hok
    cases hok
  · exact hsecond _

theorem Stable.refusedAs {check : Check ν κ ε} {e : ε} (h : Stable check) :
    Stable (refusedAs e check) := by
  intro stores
  have hok := h stores
  rw [Memo.refusedAs]
  split
  · rename_i heq
    rw [heq] at hok
    cases hok
  · rfl

theorem Stable.memo [DecidableEq ν] [DecidableEq κ] {max : ν → Nat} {lookup : Bool}
    {key : Option (ν × κ)} {check : Check ν κ ε} (h : Stable check) :
    Stable (memo max lookup key check) := by
  intro stores
  cases key with
  | none => exact h stores
  | some key =>
    have hok := h stores
    simp only [Memo.memo]
    split
    · rfl
    · split
      · rename_i heq
        rw [heq] at hok
        cases hok
      · rfl

end Checks

/-! ## What a check establishes -/

section Establishes

variable {ν : Type u} {κ : Type v} {ε : Type w} [DecidableEq κ]

/-- Every key in the stores has the property. -/
def Justified (J : ν × κ → Prop) (stores : Stores ν κ) : Prop :=
  ∀ key, stores.get key = true → J key

/-- From stores whose keys have the property, a check that passes establishes `G`, and it only adds
keys that have the property. -/
def Establishes (J : ν × κ → Prop) (G : Prop) (check : Check ν κ ε) : Prop :=
  ∀ stores, Justified J stores →
    Justified J (check stores).2 ∧ ((check stores).1 = .ok () → G)

/-- A check that passes establishes that it passes from every store. -/
def Sound (J : ν × κ → Prop) (check : Check ν κ ε) : Prop := Establishes J (Stable check) check

variable {J : ν × κ → Prop} {G G' : Prop} {reason : Option ε} {first second check : Check ν κ ε}

theorem justified_empty : Justified J (Stores.empty : Stores ν κ) := nofun

theorem Establishes.imp (h : Establishes J G check) (himp : G → G') : Establishes J G' check :=
  fun stores hstores => ⟨(h stores hstores).1, fun hok => himp ((h stores hstores).2 hok)⟩

theorem Establishes.of_empty (h : Establishes J G check) (hok : (check Stores.empty).1 = .ok ()) :
    G := (h _ justified_empty).2 hok

theorem establishes_reject : Establishes J (reason = none) (reject reason) := by
  intro stores hstores
  cases reason with
  | none => exact ⟨hstores, fun _ => rfl⟩
  | some e => exact ⟨hstores, nofun⟩

/-- The second check is only run with what the first one has established. -/
theorem Establishes.andThen (hfirst : Establishes J G first)
    (hsecond : G → Establishes J G' second) :
    Establishes J (G ∧ G') (andThen first second) := by
  intro stores hstores
  obtain ⟨hjustified, hestablished⟩ := hfirst stores hstores
  rw [Memo.andThen]
  split
  · rename_i heq
    rw [heq] at hjustified
    exact ⟨hjustified, nofun⟩
  · rename_i heq
    rw [heq] at hjustified hestablished
    obtain ⟨hjustified', hestablished'⟩ := hsecond (hestablished rfl) _ hjustified
    exact ⟨hjustified', fun hok => ⟨hestablished rfl, hestablished' hok⟩⟩

theorem Establishes.refusedAs {e : ε} (h : Establishes J G check) :
    Establishes J G (refusedAs e check) := by
  intro stores hstores
  obtain ⟨hjustified, hestablished⟩ := h stores hstores
  rw [Memo.refusedAs]
  split
  · rename_i heq
    rw [heq] at hjustified
    exact ⟨hjustified, nofun⟩
  · rename_i heq
    rw [heq] at hjustified hestablished
    exact ⟨hjustified, fun _ => hestablished rfl⟩

/-- **What a memoised check establishes** follows from what the check establishes and from the
property of a key that is found, which the check gives the keys it adds. -/
theorem Establishes.memo [DecidableEq ν] {max : ν → Nat} {lookup : Bool} {key : Option (ν × κ)}
    (h : Establishes J G check) (himp : G → G')
    (hfound : ∀ k, lookup = true → key = some k → J k → G')
    (hadded : ∀ k, key = some k → G → J k) :
    Establishes J G' (memo max lookup key check) := by
  intro stores hstores
  cases key with
  | none => exact h.imp himp stores hstores
  | some k =>
    obtain ⟨hjustified, hestablished⟩ := h stores hstores
    by_cases hget : (lookup && stores.get k) = true
    · have hlookup := (Bool.and_eq_true_iff.1 hget).1
      have hk := hstores k (Bool.and_eq_true_iff.1 hget).2
      refine ⟨fun k' hk' => ?_, fun _ => hfound k hlookup rfl hk⟩
      simp only [Memo.memo, if_pos hget] at hk'
      rcases get_of_get_touch hk' with rfl | hold
      · exact hk
      · exact hstores k' hold
    · simp only [Memo.memo, if_neg hget]
      split
      · rename_i heq
        rw [heq] at hjustified
        exact ⟨hjustified, nofun⟩
      · rename_i heq
        rw [heq] at hjustified hestablished
        refine ⟨fun k' hk' => ?_, fun _ => himp (hestablished rfl)⟩
        rcases get_of_get_set hk' with rfl | hold
        · exact hadded _ rfl (hestablished rfl)
        · exact hjustified k' hold

/-! ## Runs of checks -/

/-- What the stores hold after a list of checks, each run on what the one before it left. -/
def run (checks : List (Check ν κ ε)) (stores : Stores ν κ) : Stores ν κ :=
  checks.foldl (fun stores check => (check stores).2) stores

theorem justified_run {checks : List (Check ν κ ε)}
    (h : ∀ check ∈ checks, ∃ G, Establishes J G check) :
    ∀ {stores : Stores ν κ}, Justified J stores → Justified J (run checks stores) := by
  induction checks with
  | nil => exact fun hstores => hstores
  | cons check checks ih =>
    intro stores hstores
    obtain ⟨_, hestablishes⟩ := h check (List.mem_cons_self ..)
    exact ih (fun check' hmem => h check' (List.mem_cons_of_mem _ hmem))
      (hestablishes stores hstores).1

/-- **A sound check that passes at the end of a run of sound checks passes from every store.** -/
theorem stable_of_run {checks : List (Check ν κ ε)} (h : ∀ check ∈ checks, Sound J check)
    (hcheck : Sound J check) (hok : (check (run checks Stores.empty)).1 = .ok ()) : Stable check :=
  (hcheck _ (justified_run (fun check hmem => ⟨_, h check hmem⟩) justified_empty)).2 hok

end Establishes

end Memo

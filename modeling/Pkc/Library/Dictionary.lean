import Mathlib.Data.List.Basic

/-!
# Dictionaries that keep the order of their keys

An object used as a dictionary: setting a key that is there keeps its place, and a new key comes
last.  Mathlib's `AList` has the same lookups, but its `insert` moves the key to the front, which
shows when keys are searched in order.

`get_set` and `get_delete` say what is there after an update; `findKey` is the first key whose value
has a property, and `findKey_eq_some` and `findKey_eq_none` are all that is used of it.
-/

set_option autoImplicit false

universe u v

abbrev Dictionary (κ : Type u) (υ : Type v) := List (κ × υ)

namespace Dictionary

variable {κ : Type u} {υ : Type v} [DecidableEq κ] {d : Dictionary κ υ} {k k' : κ} {x : υ}

/-- The value of the key. -/
def get (d : Dictionary κ υ) (k : κ) : Option υ := (d.find? fun entry => entry.1 = k).map (·.2)

/-- Sets the key, in its place or as the last one. -/
def set (d : Dictionary κ υ) (k : κ) (x : υ) : Dictionary κ υ :=
  if (d.get k).isSome then d.map fun entry => if entry.1 = k then (k, x) else entry
  else d ++ [(k, x)]

def delete (d : Dictionary κ υ) (k : κ) : Dictionary κ υ := d.filter fun entry => entry.1 ≠ k

/-- The first key whose value has `p`. -/
def findKey (d : Dictionary κ υ) (p : υ → Bool) : Option κ :=
  (d.map (·.1)).find? fun k => (d.get k).any p

@[simp]
theorem get_nil : get ([] : Dictionary κ υ) k = none := rfl

theorem get_cons (entry : κ × υ) :
    get (entry :: d) k = if entry.1 = k then some entry.2 else d.get k := by
  rw [get, List.find?_cons]
  by_cases h : entry.1 = k <;> simp [h, get]

theorem get_delete : (d.delete k).get k' = if k' = k then none else d.get k' := by
  induction d with
  | nil => simp [delete, get]
  | cons entry d ih =>
    by_cases hdeleted : entry.1 = k
    · have hrest : delete (entry :: d) k = delete d k := by simp [delete, hdeleted]
      rw [hrest, ih, get_cons, hdeleted]
      split
      · rfl
      · rename_i hne
        rw [if_neg (Ne.symm hne)]
    · have hrest : delete (entry :: d) k = entry :: delete d k := by simp [delete, hdeleted]
      rw [hrest, get_cons, get_cons, ih]
      split
      · rename_i heq
        rw [if_neg (heq ▸ hdeleted)]
      · rfl

theorem get_append_of_get_eq_none (hk : d.get k = none) :
    get (d ++ [(k, x)]) k' = if k' = k then some x else d.get k' := by
  induction d with
  | nil =>
    rw [List.nil_append, get_cons]
    simp only [eq_comm]
  | cons entry d ih =>
    rw [get_cons] at hk
    split at hk
    · cases hk
    · rename_i hne
      rw [List.cons_append, get_cons, get_cons, ih hk]
      split
      · rename_i heq
        rw [if_neg (heq ▸ hne)]
      · rfl

theorem get_replace : get (d.map fun entry => if entry.1 = k then (k, x) else entry) k' =
    if k' = k then (d.get k).map fun _ => x else d.get k' := by
  induction d with
  | nil => simp
  | cons entry d ih =>
    rw [List.map_cons, get_cons, get_cons, ih, get_cons]
    by_cases hentry : entry.1 = k
    · by_cases heq : k' = k
      · simp [hentry, heq]
      · simp [hentry, heq, Ne.symm heq]
    · by_cases heq : k' = k
      · simp [hentry, heq]
      · simp [hentry, heq]

theorem get_set : (d.set k x).get k' = if k' = k then some x else d.get k' := by
  rw [set]
  split
  · rename_i hsome
    obtain ⟨y, hy⟩ := Option.isSome_iff_exists.1 hsome
    rw [get_replace, hy]
    rfl
  · rename_i hnone
    exact get_append_of_get_eq_none (Option.not_isSome_iff_eq_none.1 hnone)

theorem findKey_eq_some {p : υ → Bool} (h : d.findKey p = some k) :
    ∃ y, d.get k = some y ∧ p y := by
  have hany := List.find?_some h
  rwa [Option.any_eq_true] at hany

theorem findKey_eq_none {p : υ → Bool} (h : d.findKey p = none) (hk : d.get k = some x) :
    p x = false := by
  have hmem : k ∈ d.map (·.1) := by
    obtain ⟨entry, hentry, -⟩ := Option.map_eq_some_iff.1 hk
    have hkey : entry.1 = k := by simpa using List.find?_some hentry
    exact List.mem_map.2 ⟨entry, List.mem_of_find?_eq_some hentry, hkey⟩
  have hnot := List.find?_eq_none.1 h k hmem
  simpa [hk] using hnot

end Dictionary

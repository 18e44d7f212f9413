import Mathlib.Logic.Basic

/-!
# Patches: partial updates of a record

A record with keys `κ` and values `ν` is a function `κ → ν`, and a patch gives new values to some
of its keys.  Spreading a list of patches into one object keeps, for every key, the value of the
last patch that sets it (`merged`); assigning the result to a record overwrites the keys it sets
and leaves the others (`assign`).
-/

set_option autoImplicit false

namespace Patch

universe u v

variable {κ : Type u} {ν : Type v}

/-- The value the last patch that sets `k` gives it, or `none` if no patch does. -/
def merged (patches : List (κ → Option ν)) (k : κ) : Option ν :=
  patches.foldl (fun acc patch => (patch k).or acc) none

/-- Overwrite the keys a patch sets. -/
def assign (record : κ → ν) (patch : κ → Option ν) (k : κ) : ν := (patch k).getD (record k)

@[simp] theorem merged_concat (patches : List (κ → Option ν)) (patch : κ → Option ν) (k : κ) :
    merged (patches ++ [patch]) k = (patch k).or (merged patches k) := by
  rw [merged, List.foldl_append]
  rfl

theorem assign_of_none {record : κ → ν} {patch : κ → Option ν} {k : κ} (h : patch k = none) :
    assign record patch k = record k := by
  rw [assign, h, Option.getD_none]

theorem assign_of_some {record : κ → ν} {patch : κ → Option ν} {k : κ} {v : ν}
    (h : patch k = some v) : assign record patch k = v := by
  rw [assign, h, Option.getD_some]

/-- Assigning the same patch twice is assigning it once. -/
@[simp] theorem assign_assign (record : κ → ν) (patch : κ → Option ν) :
    assign (assign record patch) patch = assign record patch := by
  funext k
  cases h : patch k with
  | none => rw [assign_of_none h]
  | some v => rw [assign_of_some h, assign_of_some h]

end Patch

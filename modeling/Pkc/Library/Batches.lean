import Mathlib.Data.List.Defs
import Mathlib.Data.Nat.Init

/-!
# Cutting a list into batches

`List.toChunks` of Batteries cuts a list into batches of a given length, the last of which may be
shorter.

* `toChunks_eq_cons`: the first batch, and the batches of the rest.  Everything else follows by
  `batches_induction`.
* `flatten_toChunks`, `length_toChunks` and `length_le_of_mem_toChunks` are the batches together,
  their number and their lengths.
* `toChunks_concat`: one element more is put into the last batch, or into a new one.
* `toChunks_toChunks`: batches of batches.
-/

set_option autoImplicit false

namespace Batches

variable {α : Type*} {n : Nat} {xs : List α}

/-- The batch that is being filled gets what it has room for. -/
theorem go_eq (hn : 0 < n) (xs : List α) (filling : Array α) (full : Array (List α))
    (hpos : 0 < filling.size) (hle : filling.size ≤ n) :
    List.toChunks.go n xs filling full = full.toList ++
      (filling.toList ++ xs.take (n - filling.size)) ::
        (xs.drop (n - filling.size)).toChunks n := by
  induction xs generalizing filling full with
  | nil => simp [List.toChunks.go, List.toChunks]
  | cons x xs ih =>
    rw [List.toChunks.go]
    split
    · rename_i hfilled
      have hsize : filling.size = n := by simpa using hfilled
      obtain ⟨n, rfl⟩ : ∃ k, n = k + 1 := Nat.exists_eq_succ_of_ne_zero (by omega)
      have hrest : (x :: xs).toChunks (n + 1) = List.toChunks.go (n + 1) xs #[x] #[] := rfl
      rw [ih _ _ (by simp) (by simp), hsize, Nat.sub_self, List.drop_zero, hrest,
        ih _ _ (by simp) (by simp)]
      simp
    · rename_i hroom
      have hne : filling.size ≠ n := by simpa using hroom
      have htake : n - filling.size = n - (filling.size + 1) + 1 := by omega
      rw [ih _ _ (by simp) (by rw [Array.size_push]; omega), Array.size_push, htake]
      simp

@[simp] theorem toChunks_nil (n : Nat) : ([] : List α).toChunks n = [] := by
  cases n <;> rfl

/-- **The first batch, and the batches of the rest.** -/
theorem toChunks_eq_cons (hn : 0 < n) (hne : xs ≠ []) :
    xs.toChunks n = xs.take n :: (xs.drop n).toChunks n := by
  obtain ⟨n, rfl⟩ : ∃ k, n = k + 1 := Nat.exists_eq_succ_of_ne_zero (by omega)
  cases xs with
  | nil => exact absurd rfl hne
  | cons x xs =>
    have hgo := go_eq hn xs #[x] #[] (by simp) (by simp)
    simpa [List.toChunks] using hgo

/-- A list is empty, or a property of it follows from that of what is behind its first batch. -/
theorem batches_induction {motive : List α → Prop} (hn : 0 < n) (nil : motive [])
    (batch : ∀ xs, xs ≠ [] → motive (xs.drop n) → motive xs) (xs : List α) : motive xs := by
  induction hlength : xs.length using Nat.strong_induction_on generalizing xs with
  | _ length ih =>
    by_cases hne : xs = []
    · rw [hne]
      exact nil
    · have hpos := List.length_pos_iff.2 hne
      exact batch xs hne (ih (xs.length - n) (by omega) _ (List.length_drop ..))

theorem toChunks_ne_nil (hn : 0 < n) (hne : xs ≠ []) : xs.toChunks n ≠ [] := by
  rw [toChunks_eq_cons hn hne]
  exact List.cons_ne_nil _ _

/-- A list that is no longer than a batch is one. -/
theorem toChunks_of_length_le (hne : xs ≠ []) (hle : xs.length ≤ n) : xs.toChunks n = [xs] := by
  have hpos := List.length_pos_iff.2 hne
  rw [toChunks_eq_cons (by omega) hne, List.take_of_length_le hle, List.drop_of_length_le hle,
    toChunks_nil]

theorem flatten_toChunks (hn : 0 < n) (xs : List α) : (xs.toChunks n).flatten = xs := by
  induction xs using batches_induction hn with
  | nil => simp
  | batch xs hne ih =>
    rw [toChunks_eq_cons hn hne, List.flatten_cons, ih, List.take_append_drop]

theorem length_le_of_mem_toChunks (hn : 0 < n) {batch : List α} (h : batch ∈ xs.toChunks n) :
    batch.length ≤ n := by
  induction xs using batches_induction hn with
  | nil => simp at h
  | batch xs hne ih =>
    rw [toChunks_eq_cons hn hne] at h
    rcases List.mem_cons.1 h with rfl | h
    · exact List.length_take_le n xs
    · exact ih h

theorem ne_nil_of_mem_toChunks (hn : 0 < n) {batch : List α} (h : batch ∈ xs.toChunks n) :
    batch ≠ [] := by
  induction xs using batches_induction hn with
  | nil => simp at h
  | batch xs hne ih =>
    rw [toChunks_eq_cons hn hne] at h
    rcases List.mem_cons.1 h with rfl | h
    · simpa [hne] using Nat.pos_iff_ne_zero.1 hn
    · exact ih h

theorem length_toChunks (hn : 0 < n) (hne : xs ≠ []) :
    (xs.toChunks n).length = (xs.length - 1) / n + 1 := by
  induction xs using batches_induction hn with
  | nil => exact absurd rfl hne
  | batch xs hne' ih =>
    have hpos := List.length_pos_iff.2 hne
    rw [toChunks_eq_cons hn hne, List.length_cons]
    by_cases hrest : xs.drop n = []
    · have hle := List.drop_eq_nil_iff.1 hrest
      rw [hrest, toChunks_nil, Nat.div_eq_of_lt (by omega), List.length_nil]
    · have hlt : n < xs.length := Nat.lt_of_not_le fun hle => hrest (List.drop_of_length_le hle)
      have hdiv : (xs.length - n - 1) / n + 1 = (xs.length - 1) / n := by
        rw [← Nat.add_div_right _ hn]
        congr 1
        omega
      rw [ih hrest, List.length_drop, hdiv]

/-- All batches but the last are full. -/
theorem map_length_toChunks (hn : 0 < n) (hne : xs ≠ []) :
    (xs.toChunks n).map List.length = List.replicate ((xs.length - 1) / n) n ++
      [xs.length - n * ((xs.length - 1) / n)] := by
  induction xs using batches_induction hn with
  | nil => exact absurd rfl hne
  | batch xs hne' ih =>
    have hpos := List.length_pos_iff.2 hne
    rw [toChunks_eq_cons hn hne, List.map_cons, List.length_take]
    by_cases hrest : xs.drop n = []
    · have hle := List.drop_eq_nil_iff.1 hrest
      simp [hrest, Nat.div_eq_of_lt (show xs.length - 1 < n by omega), hle]
    · have hlt : n < xs.length := Nat.lt_of_not_le fun hle => hrest (List.drop_of_length_le hle)
      have hdiv : (xs.length - 1) / n = (xs.length - n - 1) / n + 1 := by
        rw [← Nat.add_div_right _ hn]
        congr 1
        omega
      rw [ih hrest, List.length_drop, hdiv, List.replicate_succ, List.cons_append,
        Nat.min_eq_left (Nat.le_of_lt hlt), Nat.mul_succ, Nat.add_comm (n * _), Nat.sub_add_eq]

theorem length_of_mem_dropLast_toChunks (hn : 0 < n) {batch : List α}
    (h : batch ∈ (xs.toChunks n).dropLast) : batch.length = n := by
  by_cases hne : xs = []
  · simp [hne] at h
  have hlengths := congrArg List.dropLast (map_length_toChunks hn hne)
  rw [List.dropLast_concat, ← List.map_dropLast] at hlengths
  have hmem : batch.length ∈ List.replicate ((xs.length - 1) / n) n :=
    hlengths ▸ List.mem_map_of_mem h
  exact List.eq_of_mem_replicate hmem

theorem toChunks_one (xs : List α) : xs.toChunks 1 = xs.map fun x => [x] := by
  induction xs with
  | nil => rfl
  | cons x xs ih =>
    rw [toChunks_eq_cons Nat.one_pos (List.cons_ne_nil x xs), List.map_cons, ← ih]
    rfl

/-- Batches, and a last one that is not full, to which everything is added. -/
theorem toChunks_concat (hn : 0 < n) (xs : List α) :
    ∃ full last, last.length < n ∧ xs.toChunks n = (if last = [] then full else full ++ [last]) ∧
      ∀ x, (xs ++ [x]).toChunks n = full ++ [last ++ [x]] := by
  induction xs using batches_induction hn with
  | nil => exact ⟨[], [], hn, by simp, fun x => toChunks_of_length_le (by simp) hn⟩
  | batch xs hne ih =>
    rcases Nat.lt_or_ge xs.length n with hlt | hge
    · refine ⟨[], xs, hlt, ?_, fun x =>
        toChunks_of_length_le (by simp) (by simpa using Nat.succ_le_of_lt hlt)⟩
      rw [toChunks_of_length_le hne (Nat.le_of_lt hlt), if_neg hne, List.nil_append]
    · obtain ⟨full, last, hlast, hall, hconcat⟩ := ih
      refine ⟨xs.take n :: full, last, hlast, ?_, fun x => ?_⟩
      · rw [toChunks_eq_cons hn hne, hall]
        split <;> rfl
      · rw [toChunks_eq_cons hn (by simp), List.take_append_of_le_length hge,
          List.drop_append_of_le_length hge, hconcat, List.cons_append]

theorem map_toChunks {β : Type*} (hn : 0 < n) (f : α → β) (xs : List α) :
    (xs.map f).toChunks n = (xs.toChunks n).map (List.map f) := by
  induction xs using batches_induction hn with
  | nil => simp
  | batch xs hne ih =>
    rw [toChunks_eq_cons hn (by simpa using hne), toChunks_eq_cons hn hne, List.map_cons,
      ← List.map_take, ← List.map_drop, ih]

/-! ## Batches of batches -/

theorem take_toChunks (hn : 0 < n) (k : Nat) (xs : List α) :
    (xs.toChunks n).take k = (xs.take (n * k)).toChunks n := by
  induction k generalizing xs with
  | zero => simp
  | succ k ih =>
    by_cases hne : xs = []
    · simp [hne]
    · have htake : xs.take (n * (k + 1)) ≠ [] := by
        simpa [hne] using Nat.pos_iff_ne_zero.1 (Nat.mul_pos hn (Nat.succ_pos k))
      rw [toChunks_eq_cons hn hne, toChunks_eq_cons hn htake, List.take_succ_cons, ih,
        List.take_take, List.drop_take, Nat.mul_succ, Nat.min_eq_left (Nat.le_add_left n _),
        Nat.add_sub_cancel]

theorem drop_toChunks (hn : 0 < n) (k : Nat) (xs : List α) :
    (xs.toChunks n).drop k = (xs.drop (n * k)).toChunks n := by
  induction k generalizing xs with
  | zero => simp
  | succ k ih =>
    by_cases hne : xs = []
    · simp [hne]
    · rw [toChunks_eq_cons hn hne, List.drop_succ_cons, ih, List.drop_drop, Nat.mul_succ,
        Nat.add_comm n]

/-- **Batches of `k` batches of `n`** are the batches of `n * k`, each cut into batches of `n`. -/
theorem toChunks_toChunks {k : Nat} (hn : 0 < n) (hk : 0 < k) (xs : List α) :
    (xs.toChunks n).toChunks k = (xs.toChunks (n * k)).map fun batch => batch.toChunks n := by
  have hnk : 0 < n * k := Nat.mul_pos hn hk
  induction xs using batches_induction hnk with
  | nil => simp
  | batch xs hne ih =>
    rw [toChunks_eq_cons hk (toChunks_ne_nil hn hne), take_toChunks hn, drop_toChunks hn, ih,
      toChunks_eq_cons hnk hne, List.map_cons]

end Batches

import Mathlib.Data.List.Dedup
import Mathlib.Logic.Function.Basic

/-!
# Reading for many keys at once

Instead of one statement for each key, one statement reads for a whole chunk of them, and the rows
of all chunks are collected in a map.  A chunk is padded with `none`, which is no key, so that there
are few different lengths.

* `chunks` are the chunks; `mem_chunks` says that they hold all the keys.
* `groupBy` gives a row for each group of rows with the same key.
* `readAll` reads chunk after chunk.  `readAll_eq` says that it finds for a key what a statement for
  that key alone would, and `readAll_groupBy` is the case of a statement that groups its rows.
* `readBy` and `readBy_eq` are the same for rows that add up to what is read for their key.
-/

set_option autoImplicit false

namespace GroupedReads

universe u v w

/-! ## Chunks -/

section Chunks

variable {κ : Type u}

/-- The items in slices of at most `max`. -/
def slices (max : Nat) : Nat → List κ → List (List κ)
  | 0, _ => []
  | _ + 1, [] => []
  | fuel + 1, item :: items =>
    (item :: items).take max :: slices max fuel ((item :: items).drop max)

theorem flatten_slices {max : Nat} (hmax : 0 < max) :
    ∀ {fuel : Nat} {items : List κ}, items.length ≤ fuel → (slices max fuel items).flatten = items
  | 0, [], _ => rfl
  | _ + 1, [], _ => rfl
  | fuel + 1, item :: items, hfuel => by
    have hrest : ((item :: items).drop max).length ≤ fuel := by
      rw [List.length_drop]
      rw [List.length_cons] at hfuel ⊢
      omega
    rw [slices, List.flatten_cons, flatten_slices hmax hrest, List.take_append_drop]

/-- `size` doubled until it is at least `n`. -/
def doubled (n : Nat) : Nat → Nat → Nat
  | 0, size => size
  | fuel + 1, size => if size < n then doubled n fuel (size * 2) else size

/-- A chunk with padding up to a power of two, or to `max`. -/
def padded (max : Nat) (chunk : List κ) : List (Option κ) :=
  chunk.map some ++ List.replicate
    (min (doubled chunk.length chunk.length 1) max - chunk.length) none

def chunks (max : Nat) (keys : List κ) : List (List (Option κ)) :=
  (slices max keys.length keys).map (padded max)

theorem some_mem_padded {max : Nat} {chunk : List κ} {k : κ} :
    some k ∈ padded max chunk ↔ k ∈ chunk := by
  simp [padded]

/-- **A key is in a chunk exactly if it is one of the keys.** -/
theorem mem_chunks {max : Nat} (hmax : 0 < max) {keys : List κ} {k : κ} :
    (∃ chunk ∈ chunks max keys, some k ∈ chunk) ↔ k ∈ keys := by
  conv_rhs => rw [← flatten_slices hmax (Nat.le_refl keys.length)]
  simp [chunks, some_mem_padded]

end Chunks

/-! ## Groups -/

section Groups

variable {κ : Type u} {ρ : Type v} {β : Type w} [DecidableEq κ]

/-- A row for each key, calculated from the rows with the key. -/
def groupBy (key : ρ → κ) (value : List ρ → β) (rows : List ρ) : List (κ × β) :=
  (rows.map key).dedup.map fun k => (k, value (rows.filter (key · = k)))

theorem mem_groupBy {key : ρ → κ} {value : List ρ → β} {rows : List ρ} {k : κ} {b : β} :
    (k, b) ∈ groupBy key value rows ↔
      rows.filter (key · = k) ≠ [] ∧ value (rows.filter (key · = k)) = b := by
  have hgroup : k ∈ rows.map key ↔ rows.filter (key · = k) ≠ [] := by
    simp [List.filter_eq_nil_iff]
  rw [← hgroup, groupBy, List.mem_map]
  constructor
  · rintro ⟨other, hother, heq⟩
    obtain ⟨rfl, rfl⟩ := Prod.mk.inj heq
    exact ⟨List.mem_dedup.1 hother, rfl⟩
  · rintro ⟨hk, rfl⟩
    exact ⟨k, List.mem_dedup.2 hk, rfl⟩

/-- `WHERE key IN (…)`. -/
def whereIn (key : ρ → κ) (rows : List ρ) (chunk : List (Option κ)) : List ρ :=
  rows.filter fun row => some (key row) ∈ chunk

theorem filter_whereIn {key : ρ → κ} {rows : List ρ} (chunk : List (Option κ)) (k : κ) :
    (whereIn key rows chunk).filter (key · = k) =
      if some k ∈ chunk then rows.filter (key · = k) else [] := by
  rw [whereIn, List.filter_filter]
  split
  · rename_i hmem
    refine List.filter_congr fun row _ => ?_
    by_cases hkey : key row = k <;> simp [hkey, hmem]
  · rename_i hmem
    refine List.filter_eq_nil_iff.2 fun row _ => ?_
    by_cases hkey : key row = k <;> simp [hkey, hmem]

end Groups

/-! ## Maps -/

section Maps

variable {κ : Type u} {ρ : Type v} {β : Type w} [DecidableEq κ]

/-- `map.set`. -/
def set (found : κ → Option β) (row : κ × β) : κ → Option β :=
  Function.update found row.1 (some row.2)

/-- `map.set` for each of the rows. -/
def collect (rows : List (κ × β)) : κ → Option β := rows.foldl set fun _ => none

theorem foldl_set_eq (one : κ → Option β) {k : κ} :
    ∀ {rows : List (κ × β)} {found : κ → Option β}, (∀ b, (k, b) ∈ rows → one k = some b) →
      ((∃ b, (k, b) ∈ rows) ∨ found k = one k) →
      rows.foldl set found k = one k
  | [], _, _, hfound => by simpa using hfound
  | (key, value) :: rows, found, hrows, hfound => by
    show rows.foldl set (set found (key, value)) k = one k
    refine foldl_set_eq one (fun b hb => hrows b (List.mem_cons_of_mem _ hb)) ?_
    by_cases heq : k = key
    · subst heq
      exact .inr (by rw [set, Function.update_self, hrows value List.mem_cons_self])
    · rcases hfound with ⟨b, hb⟩ | hfound
      · rcases List.mem_cons.1 hb with hhead | htail
        · exact absurd (Prod.mk.inj hhead).1 heq
        · exact .inl ⟨b, htail⟩
      · exact .inr (by rw [set, Function.update_of_ne heq, hfound])

/-- The rows of all chunks in a map. -/
def readAll (max : Nat) (keys : List κ) (rowsOf : List (Option κ) → List (κ × β)) : κ → Option β :=
  collect ((chunks max keys).flatMap rowsOf)

variable {max : Nat} {keys : List κ} {k : κ}

/-- **What is read for many keys is what is read for each of them.** -/
theorem readAll_eq (hmax : 0 < max) {rowsOf : List (Option κ) → List (κ × β)}
    (one : κ → Option β)
    (hrows : ∀ chunk k b, (k, b) ∈ rowsOf chunk ↔ some k ∈ chunk ∧ one k = some b)
    (hk : k ∈ keys) : readAll max keys rowsOf k = one k := by
  refine foldl_set_eq one (fun b hb => ?_) ?_
  · obtain ⟨chunk, -, hrow⟩ := List.mem_flatMap.1 hb
    exact ((hrows chunk k b).1 hrow).2
  · cases hone : one k with
    | none => exact .inr rfl
    | some b =>
      obtain ⟨chunk, hchunk, hmem⟩ := (mem_chunks hmax).2 hk
      exact .inl ⟨b, List.mem_flatMap.2 ⟨chunk, hchunk, (hrows chunk k b).2 ⟨hmem, hone⟩⟩⟩

/-- Nothing is read for another key. -/
theorem readAll_eq_none (hmax : 0 < max) {rowsOf : List (Option κ) → List (κ × β)}
    (hrows : ∀ chunk k b, (k, b) ∈ rowsOf chunk → some k ∈ chunk) (hk : k ∉ keys) :
    readAll max keys rowsOf k = none := by
  have hnone : ∀ b, (k, b) ∉ (chunks max keys).flatMap rowsOf := by
    intro b hb
    obtain ⟨chunk, hchunk, hrow⟩ := List.mem_flatMap.1 hb
    exact hk ((mem_chunks hmax).1 ⟨chunk, hchunk, hrows chunk k b hrow⟩)
  exact foldl_set_eq (fun _ => none) (fun b hb => absurd hb (hnone b)) (.inr rfl)

/-- Rows of a table with a unique key. -/
theorem mem_whereIn_of_nodup {rows : List ρ} {key : ρ → κ} (hnodup : (rows.map key).Nodup)
    (chunk : List (Option κ)) (k : κ) (row : ρ) :
    (k, row) ∈ (whereIn key rows chunk).map (fun row => (key row, row)) ↔
      some k ∈ chunk ∧ rows.find? (key · = k) = some row := by
  simp only [List.mem_map, whereIn, List.mem_filter, decide_eq_true_eq]
  constructor
  · rintro ⟨other, ⟨hmem, hchunk⟩, heq⟩
    obtain ⟨rfl, rfl⟩ := Prod.mk.inj heq
    refine ⟨hchunk, ?_⟩
    cases hfind : rows.find? (key · = key other) with
    | none => simpa using List.find?_eq_none.1 hfind other hmem
    | some found =>
      have hkey : key found = key other := by simpa using List.find?_some hfind
      rw [List.inj_on_of_nodup_map hnodup (List.mem_of_find?_eq_some hfind) hmem hkey]
  · rintro ⟨hchunk, hfind⟩
    have hkey : key row = k := by simpa using List.find?_some hfind
    exact ⟨row, ⟨List.mem_of_find?_eq_some hfind, hkey ▸ hchunk⟩, by rw [hkey]⟩

/-- The row of a group, if there is any. -/
def group (value : List ρ → β) (rows : List ρ) : Option β :=
  if rows.isEmpty then none else some (value rows)

theorem readAll_groupBy (hmax : 0 < max) {key : ρ → κ} {value : List ρ → β}
    {rowsOf : List (Option κ) → List ρ} (one : κ → List ρ)
    (hrows : ∀ chunk k, (rowsOf chunk).filter (key · = k) = if some k ∈ chunk then one k else [])
    (hk : k ∈ keys) :
    readAll max keys (fun chunk => groupBy key value (rowsOf chunk)) k = group value (one k) := by
  refine readAll_eq hmax (fun k => group value (one k)) (fun chunk k b => ?_) hk
  rw [mem_groupBy, hrows, group]
  by_cases hmem : some k ∈ chunk
  · by_cases hempty : one k = [] <;> simp [hmem, hempty]
  · simp [hmem]

theorem readAll_whereIn (hmax : 0 < max) {key : ρ → κ} {value : List ρ → β} {rows : List ρ}
    (hk : k ∈ keys) :
    readAll max keys (fun chunk => groupBy key value (whereIn key rows chunk)) k =
      group value (rows.filter (key · = k)) :=
  readAll_groupBy hmax (fun k => rows.filter (key · = k)) filter_whereIn hk

/-! ### Rows that add up -/

variable {σ : Type w}

/-- Every row changes what the map has for its key. -/
def collectBy (key : ρ → κ) (step : σ → ρ → σ) (start : κ → σ) (rows : List ρ) : κ → σ :=
  rows.foldl (fun found row => Function.update found (key row) (step (found (key row)) row)) start

theorem collectBy_eq {key : ρ → κ} {step : σ → ρ → σ} (k : κ) :
    ∀ {rows : List ρ} {start : κ → σ},
      collectBy key step start rows k = (rows.filter (key · = k)).foldl step (start k)
  | [], _ => rfl
  | row :: rows, start => by
    show collectBy key step _ rows k = _
    rw [collectBy_eq k]
    by_cases heq : key row = k
    · subst heq
      simp
    · simp [heq, Function.update_of_ne (Ne.symm heq)]

/-- The rows of all chunks, one after the other. -/
def readBy (max : Nat) (keys : List κ) (key : ρ → κ) (step : σ → ρ → σ) (start : κ → σ)
    (rowsOf : List (Option κ) → List ρ) : κ → σ :=
  collectBy key step start ((chunks max keys).flatMap rowsOf)

/-- **Rows that add up, for many keys and for one.**  A key that is in two chunks has its rows read
twice, so the second time must not change anything. -/
theorem readBy_eq (hmax : 0 < max) {key : ρ → κ} {step : σ → ρ → σ} {start : κ → σ}
    {rowsOf : List (Option κ) → List ρ} (one : κ → List ρ)
    (hrows : ∀ chunk k, (rowsOf chunk).filter (key · = k) = if some k ∈ chunk then one k else [])
    (hk : k ∈ keys)
    (htwice : (one k).foldl step ((one k).foldl step (start k)) = (one k).foldl step (start k)) :
    readBy max keys key step start rowsOf k = (one k).foldl step (start k) := by
  have hread : ∀ chunks : List (List (Option κ)),
      ((chunks.flatMap rowsOf).filter (key · = k)).foldl step ((one k).foldl step (start k)) =
        (one k).foldl step (start k) := by
    intro chunks
    induction chunks with
    | nil => rfl
    | cons chunk chunks ih =>
      rw [List.flatMap_cons, List.filter_append, List.foldl_append, hrows]
      split
      · rw [htwice, ih]
      · exact ih
  have hfirst : ∀ chunks : List (List (Option κ)), (∃ chunk ∈ chunks, some k ∈ chunk) →
      ((chunks.flatMap rowsOf).filter (key · = k)).foldl step (start k) =
        (one k).foldl step (start k) := by
    intro chunks hchunks
    induction chunks with
    | nil => simp at hchunks
    | cons chunk chunks ih =>
      rw [List.flatMap_cons, List.filter_append, List.foldl_append, hrows]
      split
      · exact hread chunks
      · rename_i hnot
        refine ih ?_
        obtain ⟨other, hother, hmem⟩ := hchunks
        rcases List.mem_cons.1 hother with rfl | hother
        · exact absurd hmem hnot
        · exact ⟨other, hother, hmem⟩
  rw [readBy, collectBy_eq]
  exact hfirst _ ((mem_chunks hmax).2 hk)

end Maps

end GroupedReads

import Mathlib.Algebra.BigOperators.Ring.Finset

/-!
# An index of sizes

The size of each of some keys, the least recently used one first, and the sum of the sizes, which is
counted along.

* `register`, `unregister`, `touch` and `pop` are the operations.
* `Ok` says that no key is counted twice and that the sum is right.  Every operation keeps it, and
  the membership lemmas say which entries are left.
-/

set_option autoImplicit false

universe u

structure SizeIndex (κ : Type u) where
  sizes : List (κ × Nat) := []
  total : Int := 0
deriving DecidableEq, Repr

namespace SizeIndex

variable {κ : Type u}

def has [DecidableEq κ] (index : SizeIndex κ) (key : κ) : Bool :=
  index.sizes.any fun entry => entry.1 = key

def unregister [DecidableEq κ] (index : SizeIndex κ) (key : κ) : SizeIndex κ :=
  match index.sizes.find? fun entry => entry.1 = key with
  | none => index
  | some entry =>
    { sizes := index.sizes.filter fun entry => entry.1 ≠ key
      total := index.total - entry.2 }

def register [DecidableEq κ] (index : SizeIndex κ) (key : κ) (size : Nat) : SizeIndex κ :=
  { sizes := (index.unregister key).sizes ++ [(key, size)]
    total := (index.unregister key).total + size }

/-- A known key becomes the most recently used one. -/
def touch [DecidableEq κ] (index : SizeIndex κ) (key : κ) : SizeIndex κ :=
  match index.sizes.find? fun entry => entry.1 = key with
  | none => index
  | some entry => { index with sizes := (index.sizes.filter fun entry => entry.1 ≠ key) ++ [entry] }

/-- The least recently used key, and the index without it. -/
def pop (index : SizeIndex κ) : Option (κ × SizeIndex κ) :=
  match index.sizes with
  | [] => none
  | (key, size) :: rest => some (key, { sizes := rest, total := index.total - size })

structure Ok (index : SizeIndex κ) : Prop where
  nodup : (index.sizes.map Prod.fst).Nodup
  total : index.total = ((index.sizes.map Prod.snd).sum : Nat)

theorem ok_empty : Ok ({} : SizeIndex κ) := ⟨List.nodup_nil, rfl⟩

section Operations

variable [DecidableEq κ] {index : SizeIndex κ} {key other : κ} {size : Nat} {entry : κ × Nat}

theorem has_iff : index.has key = true ↔ ∃ size, (key, size) ∈ index.sizes := by
  simp only [has, List.any_eq_true, decide_eq_true_eq]
  constructor
  · rintro ⟨⟨_, size⟩, hmem, rfl⟩
    exact ⟨size, hmem⟩
  · rintro ⟨size, hmem⟩
    exact ⟨_, hmem, rfl⟩

theorem sum_filter_ne {sizes : List (κ × Nat)} (hnodup : (sizes.map Prod.fst).Nodup)
    (hmem : entry ∈ sizes) (hkey : entry.1 = key) :
    ((sizes.filter fun entry => entry.1 ≠ key).map Prod.snd).sum + entry.2 =
      (sizes.map Prod.snd).sum := by
  induction sizes with
  | nil => simp at hmem
  | cons first rest ih =>
    rw [List.map_cons, List.nodup_cons] at hnodup
    rcases List.mem_cons.1 hmem with rfl | hmem
    · have hrest : (rest.filter fun other => other.1 ≠ key) = rest := by
        refine List.filter_eq_self.2 fun other hother => ?_
        have hne : other.1 ≠ key := fun heq =>
          hnodup.1 (hkey.trans heq.symm ▸ List.mem_map_of_mem hother)
        simpa using hne
      rw [List.filter_cons_of_neg (by simpa using hkey), hrest, List.map_cons, List.sum_cons]
      exact Nat.add_comm ..
    · have hne : first.1 ≠ key := fun heq =>
        hnodup.1 (heq.trans hkey.symm ▸ List.mem_map_of_mem hmem)
      rw [List.filter_cons_of_pos (by simpa using hne), List.map_cons, List.sum_cons,
        List.map_cons, List.sum_cons, Nat.add_assoc, ih hnodup.2 hmem]

/-- What `find?` finds. -/
theorem find?_eq_some (h : index.sizes.find? (fun entry => entry.1 = key) = some entry) :
    entry ∈ index.sizes ∧ entry.1 = key :=
  ⟨List.mem_of_find?_eq_some h, by simpa using List.find?_some h⟩

theorem ne_of_find?_eq_none (h : index.sizes.find? (fun entry => entry.1 = key) = none)
    (hmem : entry ∈ index.sizes) : entry.1 ≠ key := by
  simpa using List.find?_eq_none.1 h entry hmem

theorem mem_unregister :
    entry ∈ (index.unregister key).sizes ↔ entry ∈ index.sizes ∧ entry.1 ≠ key := by
  rw [unregister]
  split
  · rename_i hnone
    exact ⟨fun hmem => ⟨hmem, ne_of_find?_eq_none hnone hmem⟩, And.left⟩
  · simp

theorem mem_register : entry ∈ (index.register key size).sizes ↔
    entry ∈ index.sizes ∧ entry.1 ≠ key ∨ entry = (key, size) := by
  rw [register, List.mem_append, mem_unregister, List.mem_singleton]

theorem mem_touch (h : index.Ok) : entry ∈ (index.touch key).sizes ↔ entry ∈ index.sizes := by
  rw [touch]
  split
  · exact Iff.rfl
  · rename_i found hfound
    obtain ⟨hmem, hkey⟩ := find?_eq_some hfound
    simp only [List.mem_append, List.mem_filter, decide_eq_true_eq, List.mem_singleton]
    constructor
    · rintro (⟨hold, -⟩ | rfl)
      · exact hold
      · exact hmem
    · intro hold
      by_cases heq : entry.1 = key
      · exact Or.inr (List.inj_on_of_nodup_map h.nodup hold hmem (heq.trans hkey.symm))
      · exact Or.inl ⟨hold, heq⟩

omit [DecidableEq κ] in
theorem mem_of_pop {rest : SizeIndex κ} (h : index.Ok) (hpop : index.pop = some (key, rest)) :
    entry ∈ rest.sizes ↔ entry ∈ index.sizes ∧ entry.1 ≠ key := by
  rw [pop] at hpop
  split at hpop
  · cases hpop
  · rename_i first size tail hsizes
    obtain ⟨rfl, rfl⟩ := Prod.mk.inj (Option.some.inj hpop)
    have hnodup := h.nodup
    rw [hsizes, List.map_cons, List.nodup_cons] at hnodup
    rw [hsizes, List.mem_cons]
    constructor
    · intro hmem
      refine ⟨Or.inr hmem, fun heq => hnodup.1 ?_⟩
      rw [← heq]
      exact List.mem_map.2 ⟨entry, hmem, rfl⟩
    · rintro ⟨rfl | hmem, hne⟩
      · exact absurd rfl hne
      · exact hmem

/-! ### The sum -/

theorem total_unregister_le : (index.unregister key).total ≤ index.total := by
  rw [unregister]
  split
  · exact Int.le_refl _
  · rename_i entry _
    show index.total - entry.2 ≤ index.total
    omega

theorem total_touch : (index.touch key).total = index.total := by
  rw [touch]
  split <;> rfl

theorem Ok.unregister (h : index.Ok) (key : κ) : (index.unregister key).Ok := by
  rw [SizeIndex.unregister]
  split
  · exact h
  · rename_i entry hfound
    obtain ⟨hmem, hkey⟩ := find?_eq_some hfound
    refine ⟨h.nodup.sublist (List.filter_sublist.map _), ?_⟩
    have hsum := sum_filter_ne h.nodup hmem hkey
    show index.total - entry.2 =
      (((index.sizes.filter fun entry => entry.1 ≠ key).map Prod.snd).sum : Nat)
    rw [h.total]
    omega

theorem Ok.register (h : index.Ok) (key : κ) (size : Nat) : (index.register key size).Ok where
  nodup := by
    rw [SizeIndex.register, List.map_append]
    refine List.nodup_append.2 ⟨(h.unregister key).nodup, by simp, ?_⟩
    intro other hother last hlast
    obtain ⟨entry, hentry, rfl⟩ := List.mem_map.1 hother
    obtain rfl : last = key := by simpa using hlast
    exact (mem_unregister.1 hentry).2
  total := by
    show (index.unregister key).total + size = _
    rw [(h.unregister key).total, SizeIndex.register, List.map_append, List.sum_append]
    simp

theorem Ok.touch (h : index.Ok) (key : κ) : (index.touch key).Ok := by
  rw [SizeIndex.touch]
  split
  · exact h
  · rename_i entry hfound
    obtain ⟨hmem, hkey⟩ := find?_eq_some hfound
    refine ⟨?_, ?_⟩
    · rw [List.map_append]
      refine List.nodup_append.2 ⟨h.nodup.sublist (List.filter_sublist.map _), by simp, ?_⟩
      intro other hother last hlast
      obtain ⟨kept, hkept, rfl⟩ := List.mem_map.1 hother
      obtain rfl : last = entry.1 := by simpa using hlast
      rw [hkey]
      simpa using (List.mem_filter.1 hkept).2
    · have hsum := sum_filter_ne h.nodup hmem hkey
      show index.total = _
      rw [h.total, List.map_append, List.sum_append, ← hsum]
      simp

omit [DecidableEq κ] in
theorem Ok.pop {rest : SizeIndex κ} (h : index.Ok) (hpop : index.pop = some (key, rest)) :
    rest.Ok := by
  rw [SizeIndex.pop] at hpop
  split at hpop
  · cases hpop
  · rename_i first size tail hsizes
    obtain ⟨rfl, rfl⟩ := Prod.mk.inj (Option.some.inj hpop)
    obtain ⟨hnodup, htotal⟩ := h
    rw [hsizes] at hnodup htotal
    refine ⟨(List.nodup_cons.1 hnodup).2, ?_⟩
    rw [List.map_cons, List.sum_cons] at htotal
    show index.total - size = ((tail.map Prod.snd).sum : Nat)
    omega

omit [DecidableEq κ] in
theorem Ok.total_of_pop_eq_none (h : index.Ok) (hpop : index.pop = none) : index.total = 0 := by
  rw [SizeIndex.pop] at hpop
  split at hpop
  · rename_i hsizes
    rw [h.total, hsizes]
    rfl
  · cases hpop

end Operations

end SizeIndex

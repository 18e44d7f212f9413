import Mathlib.Data.List.Chain
import Mathlib.Data.List.Nodup
import Mathlib.Logic.Function.Basic

/-!
# A lock made of promises

A lock for operations that are called one by one: each operation waits for the promise of the one
that was called before it, and the last one called is kept as the tail.  When an operation is over
it settles its promise, and clears the tail if it is still the last.

* `call`, `settle` and `Ready` are what an operation does to the lock.
* `Queued c q` says that the operations in `q`, in that order, are the ones that were called and are
  not over.
* `Queued.head` is what the lock is for: an operation that does not wait any more is the first one.
-/

set_option autoImplicit false

universe u

structure PromiseChain (ι : Type u) where
  tail : Option ι
  /-- What each operation that was called waits for. -/
  previous : ι → Option (Option ι)
  settled : ι → Bool

namespace PromiseChain

variable {ι : Type u}

def empty : PromiseChain ι := ⟨none, fun _ => none, fun _ => false⟩

/-- The promise an operation waits for is settled. -/
def Ready (c : PromiseChain ι) (i : ι) : Prop :=
  ∃ previous, c.previous i = some previous ∧ ∀ j ∈ previous, c.settled j = true

instance (c : PromiseChain ι) (i : ι) : Decidable (c.Ready i) :=
  match h : c.previous i with
  | none => .isFalse fun ⟨_, hprevious, _⟩ => by simp [h] at hprevious
  | some none => .isTrue ⟨none, h, by simp⟩
  | some (some j) =>
    if hsettled : c.settled j = true then .isTrue ⟨some j, h, by simpa using hsettled⟩
    else .isFalse fun ⟨previous, hprevious, hall⟩ => by
      rw [h, Option.some.injEq] at hprevious
      exact hsettled (hall j (by rw [← hprevious]; rfl))

variable [DecidableEq ι]

def call (c : PromiseChain ι) (i : ι) : PromiseChain ι :=
  { c with
    tail := some i
    previous := Function.update c.previous i (some c.tail) }

def settle (c : PromiseChain ι) (i : ι) : PromiseChain ι :=
  { c with
    tail := if c.tail = some i then none else c.tail
    settled := Function.update c.settled i true }

/-- The operations that were called and are not over, in the order of their calls. -/
structure Queued (c : PromiseChain ι) (q : List ι) : Prop where
  nodup : q.Nodup
  mem : ∀ i, i ∈ q ↔ (c.previous i).isSome = true ∧ c.settled i = false
  tail : c.tail = q.getLast?
  linked : q.IsChain fun i j => c.previous j = some (some i)
  ready : ∀ i ∈ q.head?, c.Ready i
  /-- What was not called is not over. -/
  called : ∀ i, c.settled i = true → (c.previous i).isSome = true

section Queued

omit [DecidableEq ι]

variable {c : PromiseChain ι} {q : List ι} {i j : ι}

theorem queued_empty : Queued (empty : PromiseChain ι) [] where
  nodup := List.nodup_nil
  mem := by simp [empty]
  tail := rfl
  linked := .nil
  ready := by simp
  called := by simp [empty]

/-- **One at a time, in the order of the calls.** -/
theorem Queued.head (h : Queued c q) (hmem : i ∈ q) (hready : c.Ready i) : q.head? = some i := by
  obtain ⟨before, after, rfl⟩ := List.append_of_mem hmem
  obtain ⟨previous, hprevious, hsettled⟩ := hready
  rcases before.eq_nil_or_concat with rfl | ⟨before, j, rfl⟩
  · rfl
  · -- it waits for the one before it, which is not over
    have hlink : c.previous i = some (some j) := by
      have hlinked := h.linked
      rw [List.concat_eq_append, List.append_assoc, List.isChain_append] at hlinked
      exact (List.isChain_cons_cons.1 hlinked.2.1).1
    rw [hlink, Option.some.injEq] at hprevious
    have hover := hsettled j (by rw [← hprevious]; rfl)
    have hj := ((h.mem j).1 (by simp)).2
    rw [hover] at hj
    simp at hj

end Queued

section Operations

variable {c : PromiseChain ι} {q : List ι} {i j : ι}

omit [DecidableEq ι] in
theorem Queued.notMem (h : Queued c q) (hnew : c.previous i = none) : i ∉ q := by
  intro hmem
  have hcalled := ((h.mem i).1 hmem).1
  rw [hnew] at hcalled
  simp at hcalled

/-- An operation that does not wait any more need not wait again. -/
theorem Ready.call (h : c.Ready j) (hne : j ≠ i) : (c.call i).Ready j := by
  obtain ⟨previous, hprevious, hsettled⟩ := h
  exact ⟨previous, by rw [PromiseChain.call]; simpa [hne] using hprevious, hsettled⟩

theorem Ready.settle (h : c.Ready j) : (c.settle i).Ready j := by
  obtain ⟨previous, hprevious, hsettled⟩ := h
  refine ⟨previous, hprevious, fun k hk => ?_⟩
  by_cases heq : k = i
  · subst heq
    exact Function.update_self ..
  · exact (Function.update_of_ne heq ..).trans (hsettled k hk)

/-- The operation that is called comes last. -/
theorem Queued.call (h : Queued c q) (hnew : c.previous i = none) :
    Queued (c.call i) (q ++ [i]) := by
  have hnot : i ∉ q := h.notMem hnew
  have hother : ∀ j, j ≠ i → (c.call i).previous j = c.previous j := fun j hne =>
    Function.update_of_ne hne _ _
  have hself : (c.call i).previous i = some c.tail := Function.update_self _ _ _
  refine ⟨?_, fun j => ?_, ?_, ?_, fun j hj => ?_, fun j hj => ?_⟩
  · rw [List.nodup_append]
    exact ⟨h.nodup, List.nodup_singleton i, fun a ha b hb => by
      rw [List.mem_singleton.1 hb]
      exact fun heq => hnot (heq ▸ ha)⟩
  · rw [List.mem_append, List.mem_singleton, h.mem]
    show _ ↔ _ ∧ c.settled j = false
    by_cases heq : j = i
    · subst heq
      have hopen : c.settled j = false := by
        by_contra hsettled
        have hcalled := h.called j (by simpa using hsettled)
        rw [hnew] at hcalled
        simp at hcalled
      simp [hself, hopen]
    · simp [hother j heq, heq]
  · simp [PromiseChain.call]
  · rw [List.isChain_append]
    refine ⟨h.linked.imp_of_mem_imp fun a b _ hb hab => ?_, .singleton i, fun a ha b hb => ?_⟩
    · rw [hother b fun heq => hnot (heq ▸ hb)]
      exact hab
    · obtain rfl : i = b := by simpa using hb
      rw [hself, h.tail, ha]
  · rcases q with _ | ⟨k, q⟩
    · obtain rfl : i = j := by simpa using hj
      exact ⟨none, by rw [hself, h.tail]; rfl, by simp⟩
    · obtain rfl : k = j := by simpa using hj
      obtain ⟨previous, hprevious, hsettled⟩ := h.ready k rfl
      refine ⟨previous, ?_, hsettled⟩
      rw [hother k fun heq => hnot (heq ▸ List.mem_cons_self)]
      exact hprevious
  · by_cases heq : j = i
    · subst heq
      rw [hself]
      rfl
    · rw [hother j heq]
      exact h.called j hj

/-- The operation that is over was the first. -/
theorem Queued.settle (h : Queued c (i :: q)) : Queued (c.settle i) q := by
  obtain ⟨hnot, hnodup⟩ := List.nodup_cons.1 h.nodup
  have hother : ∀ j, j ≠ i → (c.settle i).settled j = c.settled j := fun j hne =>
    Function.update_of_ne hne _ _
  have hself : (c.settle i).settled i = true := Function.update_self _ _ _
  refine ⟨hnodup, fun j => ?_, ?_, h.linked.tail, fun j hj => ?_, fun j hj => ?_⟩
  · by_cases heq : j = i
    · subst heq
      simp [hself, hnot]
    · have hmem := h.mem j
      rw [List.mem_cons, or_iff_right heq] at hmem
      rw [hmem, hother j heq]
      rfl
  · show (if c.tail = some i then none else c.tail) = q.getLast?
    rw [h.tail]
    rcases q.eq_nil_or_concat with rfl | ⟨q, l, rfl⟩
    · simp
    · rw [List.concat_eq_append] at hnot ⊢
      have hlast : (i :: (q ++ [l])).getLast? = some l := by
        rw [← List.cons_append]
        exact List.getLast?_concat
      have hne : l ≠ i := fun heq => hnot (by simp [heq])
      simp [hlast, hne]
  · rcases q with _ | ⟨k, q⟩
    · simp at hj
    · obtain rfl : k = j := by simpa using hj
      exact ⟨some i, (List.isChain_cons_cons.1 h.linked).1, by simpa using hself⟩
  · by_cases heq : j = i
    · subst heq
      exact ((h.mem j).1 List.mem_cons_self).1
    · rw [hother j heq] at hj
      exact h.called j hj

end Operations

end PromiseChain

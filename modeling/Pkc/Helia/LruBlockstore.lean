import Pkc.Library.Runs
import Pkc.Library.SizeIndex
import Pkc.Library.Tasks

/-!
# The size-capped blockstore

`LruBlockstore` counts the blocks of a child store and evicts the least recently used ones when
their sizes exceed the cap.  The child is asynchronous: what it is asked to do takes effect some
time before the operation that has asked goes on.

* `step` is what one operation does up to its next `await` of the child, or what the child does, in
  any order.
* `Accounting` is what the index promises once nothing is under way.
* `StoreOk` is the invariant: a counted block is in the child, unless an operation on it will put
  that right.  `StoreOk.step` keeps it in every step that is `Sound`.
* `accounted`: the promise is kept in every run of such steps; `not_accounted` shows what happens in
  others.
-/

set_option autoImplicit false

namespace Pkc
namespace Helia

open Runs Tasks

structure LruBlockstoreOptions where
  maxBytes : Nat
  /-- `Math.floor(maxBytes * lowWaterRatio)`, for a ratio of at most 1 -/
  lowWaterBytes : Nat
  maxBytes_pos : 0 < maxBytes
  lowWaterBytes_le : lowWaterBytes ≤ maxBytes

/-- What is under way, and what it is about to do. -/
inductive Operation (Key : Type)
  /-- `put` awaits the child, which does not have the block yet. -/
  | putting (key : Key) (size : Nat)
  /-- The child has taken the block. -/
  | written (key : Key) (size : Nat)
  | deleting (key : Key)
  /-- The child has dropped the block. -/
  | deleted (key : Key)
  /-- `get` reads from the child. -/
  | reading (key : Key) (known : Bool)
  | consumed (key : Key) (known : Bool) (size : Nat)
  /-- The child has no such block. -/
  | missing (key : Key)
  /-- `rebuildIndex`, between two blocks. -/
  | scanning
  | measuring (key : Key)
  | measured (key : Key) (size : Nat)
deriving DecidableEq, Repr

/-- Where `_evict` is. -/
inductive Eviction (Key : Type)
  | deleting (key : Key)
  | deleted (key : Key)
  /-- The loop is left, and `finally` is next. -/
  | finished
deriving DecidableEq, Repr

structure Store (ι Key : Type) where
  /-- The sizes of the blocks in the child. -/
  child : Key → Option Nat
  index : SizeIndex Key := {}
  evicting : Option (Eviction Key) := none
  operations : ι → Option (Operation Key) := fun _ => none
  /-- The blocks that were counted, as by `put`, and neither deleted nor evicted since. -/
  kept : List Key := []

inductive Event (ι Key : Type)
  | put (i : ι) (key : Key) (size : Nat)
  | childPut (i : ι)
  /-- `put` goes on. -/
  | register (i : ι)
  | delete (i : ι) (key : Key)
  | childDelete (i : ι)
  | unregister (i : ι)
  | get (i : ι) (key : Key)
  | childGet (i : ι)
  /-- The block was read to its end. -/
  | consume (i : ι)
  | abandon (i : ι)
  /-- The child throws, since it has no such block. -/
  | notFound (i : ι)
  /-- The caller aborts the read. -/
  | abort (i : ι)
  | evictFromChild
  | evictNext
  | evictSettles
  | rebuildIndex (i : ι)
  /-- The scan yields a block. -/
  | visit (i : ι) (key : Key)
  | childMeasure (i : ι)
  | count (i : ι)
  /-- The scan is over, or has failed. -/
  | rebuilt (i : ι)

section Step

variable {ι Key : Type} [DecidableEq ι] [DecidableEq Key]

/-- The head of the loop of `_evict`. -/
def Store.evictLoop (o : LruBlockstoreOptions) (s : Store ι Key) : Store ι Key :=
  if s.index.total > o.lowWaterBytes then
    match s.index.pop with
    | none => { s with evicting := some .finished }
    | some (key, index) =>
      { s with
        index := index
        evicting := some (.deleting key)
        kept := s.kept.filter fun other => other ≠ key }
  else { s with evicting := some .finished }

def Store.evictIfNeeded (o : LruBlockstoreOptions) (s : Store ι Key) : Store ι Key :=
  if s.index.total ≤ o.maxBytes then s
  else if s.evicting.isSome then s
  else s.evictLoop o

def Store.goesOn (s : Store ι Key) (i : ι) (operation : Option (Operation Key)) : Store ι Key :=
  { s with operations := Function.update s.operations i operation }

def Store.register (s : Store ι Key) (key : Key) (size : Nat) : Store ι Key :=
  { s with index := s.index.register key size, kept := key :: s.kept }

def Store.unregister (s : Store ι Key) (key : Key) : Store ι Key :=
  { s with index := s.index.unregister key }

def step (o : LruBlockstoreOptions) (s : Store ι Key) : Event ι Key → Option (Store ι Key)
  | .put i key size =>
    if (s.operations i).isSome then none else some (s.goesOn i (some (.putting key size)))
  | .childPut i =>
    match s.operations i with
    | some (.putting key size) =>
      some { s.goesOn i (some (.written key size)) with
        child := Function.update s.child key (some size) }
    | _ => none
  | .register i =>
    match s.operations i with
    | some (.written key size) =>
      some (((s.goesOn i none).register key size).evictIfNeeded o)
    | _ => none
  | .delete i key =>
    if (s.operations i).isSome then none else some (s.goesOn i (some (.deleting key)))
  | .childDelete i =>
    match s.operations i with
    | some (.deleting key) =>
      some { s.goesOn i (some (.deleted key)) with child := Function.update s.child key none }
    | _ => none
  | .unregister i =>
    match s.operations i with
    | some (.deleted key) =>
      some { (s.goesOn i none).unregister key with
        kept := s.kept.filter fun other => other ≠ key }
    | _ => none
  | .get i key =>
    if (s.operations i).isSome then none
    else
      some { s.goesOn i (some (.reading key (s.index.has key))) with index := s.index.touch key }
  | .childGet i =>
    match s.operations i with
    | some (.reading key known) =>
      some (s.goesOn i (some ((s.child key).elim (.missing key) (.consumed key known))))
    | _ => none
  | .consume i =>
    match s.operations i with
    | some (.consumed _ true _) => some (s.goesOn i none)
    | some (.consumed key false size) =>
      some (((s.goesOn i none).register key size).evictIfNeeded o)
    | _ => none
  | .abandon i =>
    match s.operations i with
    | some (.reading _ _) | some (.consumed _ _ _) => some (s.goesOn i none)
    | _ => none
  | .notFound i =>
    match s.operations i with
    | some (.missing key) => some ((s.goesOn i none).unregister key)
    | _ => none
  | .abort i =>
    match s.operations i with
    | some (.reading key _) | some (.consumed key _ _) => some ((s.goesOn i none).unregister key)
    | _ => none
  | .evictFromChild =>
    match s.evicting with
    | some (.deleting key) =>
      some { s with child := Function.update s.child key none, evicting := some (.deleted key) }
    | _ => none
  | .evictNext =>
    match s.evicting with
    | some (.deleted _) => some (s.evictLoop o)
    | _ => none
  | .evictSettles =>
    match s.evicting with
    | some .finished => some { s with evicting := none }
    | _ => none
  | .rebuildIndex i =>
    if (s.operations i).isSome then none else some (s.goesOn i (some .scanning))
  | .visit i key =>
    match s.operations i with
    | some .scanning =>
      if s.index.has key then some s else some (s.goesOn i (some (.measuring key)))
    | _ => none
  | .childMeasure i =>
    match s.operations i with
    | some (.measuring key) => (s.child key).map fun size => s.goesOn i (some (.measured key size))
    | _ => none
  | .count i =>
    match s.operations i with
    | some (.measured key size) => some ((s.goesOn i (some .scanning)).register key size)
    | _ => none
  | .rebuilt i =>
    match s.operations i with
    | some .scanning | some (.measuring _) => some ((s.goesOn i none).evictIfNeeded o)
    | _ => none

end Step

/-! ## The accounting -/

section Accounting

variable {ι Key : Type} [DecidableEq ι] [DecidableEq Key]

/-- Nothing is under way. -/
def Settled (s : Store ι Key) : Prop := (∀ i, s.operations i = none) ∧ s.evicting = none

/-- What the index says of the child. -/
structure Accounting (o : LruBlockstoreOptions) (s : Store ι Key) : Prop where
  stored : ∀ entry ∈ s.index.sizes, s.child entry.1 = some entry.2
  total : s.index.total = ((s.index.sizes.map Prod.snd).sum : Nat)
  counted : ∀ key ∈ s.kept, s.index.has key = true
  capped : s.index.total ≤ o.maxBytes

/-- A `put` or a `delete` of a key, which leaves the index right when it ends. -/
def Operation.mends (key : Key) : Operation Key → Bool
  | .putting other _ | .written other _ | .deleting other | .deleted other => other = key
  | _ => false

def Operation.rebuilds : Operation Key → Bool
  | .scanning | .measuring _ | .measured _ _ => true
  | _ => false

def Mending (s : Store ι Key) (key : Key) : Prop :=
  ∃ i operation, s.operations i = some operation ∧ operation.mends key = true

/-- A block that may be counted. -/
def Backed (s : Store ι Key) (key : Key) (size : Nat) : Prop :=
  s.child key = some size ∧ s.evicting ≠ some (.deleting key) ∨ Mending s key

/-- Eviction is not at its end while it is needed. -/
def Room (o : LruBlockstoreOptions) (s : Store ι Key) : Prop :=
  s.index.total ≤ o.maxBytes ∨ s.evicting ≠ some .finished

/-- What a step may not do: count a block that the child does not have or is about to drop, stop
counting one that it has, or leave the cap to an eviction that has just ended. -/
def Sound (o : LruBlockstoreOptions) (s : Store ι Key) : Event ι Key → Prop
  | .register i => ∀ key size, s.operations i = some (.written key size) →
    Backed (s.goesOn i none) key size ∧ Room o (s.register key size)
  | .consume i => ∀ key size, s.operations i = some (.consumed key false size) →
    Backed (s.goesOn i none) key size ∧ Room o (s.register key size)
  | .count i => ∀ key size, s.operations i = some (.measured key size) → Backed s key size
  | .notFound i => ∀ key, s.operations i = some (.missing key) →
    s.index.has key = false ∨ Mending s key
  | .abort i => ∀ key known, s.operations i = some (.reading key known) ∨
      (∃ size, s.operations i = some (.consumed key known size)) →
    s.index.has key = false ∨ Mending s key
  | .rebuilt _ => Room o s
  | _ => True

structure StoreOk (s : Store ι Key) : Prop where
  index : s.index.Ok
  stored : ∀ entry ∈ s.index.sizes, Backed s entry.1 entry.2
  counted : ∀ key ∈ s.kept, s.index.has key = true ∨ Mending s key

/-- The cap is exceeded only while something is left that will see to it. -/
def Capped (o : LruBlockstoreOptions) (s : Store ι Key) : Prop :=
  s.index.total ≤ o.maxBytes ∨
    (∃ key, s.evicting = some (.deleting key) ∨ s.evicting = some (.deleted key)) ∨
    ∃ i operation, s.operations i = some operation ∧ operation.rebuilds = true

variable {o : LruBlockstoreOptions} {s s' : Store ι Key} {i : ι} {key : Key} {size : Nat}
  {operation : Option (Operation Key)}

theorem Mending.goesOn (h : Mending s key) (hgone : ∀ x, s.operations i = some x →
      x.mends key = true → ∃ y, operation = some y ∧ y.mends key = true) :
    Mending (s.goesOn i operation) key := exists_update hgone h

theorem Backed.goesOn (h : Backed s key size) (hgone : ∀ x, s.operations i = some x →
      x.mends key = true → ∃ y, operation = some y ∧ y.mends key = true) :
    Backed (s.goesOn i operation) key size := h.imp_right fun h => h.goesOn hgone

/-- An operation that goes on, and changes nothing else. -/
theorem StoreOk.goesOn (h : StoreOk s) (hgone : ∀ key x, s.operations i = some x →
      x.mends key = true → ∃ y, operation = some y ∧ y.mends key = true) :
    StoreOk (s.goesOn i operation) where
  index := h.index
  stored entry hentry := (h.stored entry hentry).goesOn (hgone entry.1)
  counted key hkey := (h.counted key hkey).imp_right fun h => h.goesOn (hgone key)

/-- A block is counted by the operation that `operation` replaces. -/
theorem StoreOk.register (h : StoreOk s) (hgone : ∀ other, other ≠ key →
      ∀ x, s.operations i = some x → x.mends other = true →
      ∃ y, operation = some y ∧ y.mends other = true)
    (hbacked : Backed (s.goesOn i operation) key size) :
    StoreOk ((s.goesOn i operation).register key size) where
  index := h.index.register key size
  stored entry hentry := by
    rcases SizeIndex.mem_register.1 hentry with ⟨hold, hne⟩ | rfl
    · exact (h.stored entry hold).goesOn (hgone entry.1 hne)
    · exact hbacked
  counted other hother := by
    by_cases heq : other = key
    · subst heq
      exact Or.inl (SizeIndex.has_iff.2 ⟨size, SizeIndex.mem_register.2 (Or.inr rfl)⟩)
    · rcases h.counted other ((List.mem_cons.1 hother).resolve_left heq) with hhas | hmending
      · obtain ⟨otherSize, hmem⟩ := SizeIndex.has_iff.1 hhas
        exact Or.inl (SizeIndex.has_iff.2
          ⟨otherSize, SizeIndex.mem_register.2 (Or.inl ⟨hmem, heq⟩)⟩)
      · exact Or.inr (hmending.goesOn (hgone other heq))

theorem has_unregister_of_ne {index : SizeIndex Key} {other : Key} (hne : other ≠ key)
    (h : index.has other = true) : (index.unregister key).has other = true := by
  obtain ⟨size, hmem⟩ := SizeIndex.has_iff.1 h
  exact SizeIndex.has_iff.2 ⟨size, SizeIndex.mem_unregister.2 ⟨hmem, hne⟩⟩

/-- A `delete` ends. -/
theorem StoreOk.unregister (h : StoreOk s) (hgone : ∀ other, other ≠ key →
      ∀ x, s.operations i = some x → x.mends other = true →
      ∃ y, operation = some y ∧ y.mends other = true) :
    StoreOk { (s.goesOn i operation).unregister key with
      kept := s.kept.filter fun other => other ≠ key } where
  index := h.index.unregister key
  stored entry hentry := by
    obtain ⟨hold, hne⟩ := SizeIndex.mem_unregister.1 hentry
    exact (h.stored entry hold).goesOn (hgone entry.1 hne)
  counted other hother := by
    obtain ⟨hother, hne⟩ := List.mem_filter.1 hother
    have hne : other ≠ key := by simpa using hne
    exact (h.counted other hother).imp (has_unregister_of_ne hne)
      fun hmending => hmending.goesOn (hgone other hne)

/-- A read ends with an error. -/
theorem StoreOk.uncount (h : StoreOk s) (hgone : ∀ other x, s.operations i = some x →
      x.mends other = true → ∃ y, operation = some y ∧ y.mends other = true)
    (hkey : s.index.has key = false ∨ Mending s key) :
    StoreOk ((s.goesOn i operation).unregister key) where
  index := h.index.unregister key
  stored entry hentry :=
    (h.stored entry (SizeIndex.mem_unregister.1 hentry).1).goesOn (hgone entry.1)
  counted other hother := by
    rcases h.counted other hother with hhas | hmending
    · by_cases heq : other = key
      · subst heq
        rcases hkey with hnot | hmending
        · simp [hhas] at hnot
        · exact Or.inr (hmending.goesOn (hgone other))
      · exact Or.inl (has_unregister_of_ne heq hhas)
    · exact Or.inr (hmending.goesOn (hgone other))

omit [DecidableEq ι] in
/-- The loop of `_evict` gives up the least recently used block. -/
theorem StoreOk.evictLoop (h : StoreOk s) :
    StoreOk (s.evictLoop o) ∧ Capped o (s.evictLoop o) := by
  have hfinished : StoreOk { s with evicting := some .finished } :=
    ⟨h.index, fun entry hentry => (h.stored entry hentry).imp_left fun hchild =>
      ⟨hchild.1, by simp⟩, h.counted⟩
  rw [Store.evictLoop]
  split
  · split
    · rename_i hpop
      refine ⟨hfinished, Or.inl ?_⟩
      show s.index.total ≤ o.maxBytes
      rw [h.index.total_of_pop_eq_none hpop]
      exact Int.natCast_nonneg _
    · rename_i victim index hpop
      refine ⟨⟨h.index.pop hpop, fun entry hentry => ?_, fun other hother => ?_⟩,
        Or.inr (Or.inl ⟨victim, Or.inl rfl⟩)⟩
      · obtain ⟨hold, hne⟩ := (SizeIndex.mem_of_pop h.index hpop).1 hentry
        refine (h.stored entry hold).imp_left fun hchild => ⟨hchild.1, ?_⟩
        simpa using Ne.symm hne
      · obtain ⟨hother, hne⟩ := List.mem_filter.1 hother
        refine (h.counted other hother).imp_left fun hhas => ?_
        obtain ⟨otherSize, hmem⟩ := SizeIndex.has_iff.1 hhas
        exact SizeIndex.has_iff.2
          ⟨otherSize, (SizeIndex.mem_of_pop h.index hpop).2 ⟨hmem, by simpa using hne⟩⟩
  · rename_i hlow
    refine ⟨hfinished, Or.inl ?_⟩
    have hle := o.lowWaterBytes_le
    show s.index.total ≤ o.maxBytes
    omega

omit [DecidableEq ι] in
theorem StoreOk.evictIfNeeded (h : StoreOk s) (hroom : Room o s) :
    StoreOk (s.evictIfNeeded o) ∧ Capped o (s.evictIfNeeded o) := by
  rw [Store.evictIfNeeded]
  split
  · rename_i hcapped
    exact ⟨h, Or.inl hcapped⟩
  · rename_i hover
    split
    · rename_i hsome
      obtain ⟨eviction, hevicting⟩ := Option.isSome_iff_exists.1 hsome
      refine ⟨h, Or.inr (Or.inl ?_)⟩
      cases eviction with
      | deleting key => exact ⟨key, Or.inl hevicting⟩
      | deleted key => exact ⟨key, Or.inr hevicting⟩
      | finished => exact absurd hevicting (hroom.resolve_left hover)
    · exact h.evictLoop

omit [DecidableEq Key] in
theorem Capped.goesOn (h : Capped o s) (hgone : ∀ x, s.operations i = some x →
      x.rebuilds = true → ∃ y, operation = some y ∧ y.rebuilds = true) :
    Capped o (s.goesOn i operation) :=
  h.imp_right fun h => h.imp_right (exists_update hgone)

omit [DecidableEq ι] in
theorem Capped.unregister (h : Capped o s) : Capped o (s.unregister key) :=
  h.imp_left fun hle => Int.le_trans SizeIndex.total_unregister_le hle

/-- The child does what it was asked to, for an operation that mends the key. -/
theorem StoreOk.childChanges (h : StoreOk s) {x : Operation Key} {stored : Option Nat}
    (hnew : operation = some x) (hmends : x.mends key = true)
    (hgone : ∀ other x, s.operations i = some x → x.mends other = true →
      ∃ y, operation = some y ∧ y.mends other = true) :
    StoreOk { s.goesOn i operation with child := Function.update s.child key stored } where
  index := h.index
  stored entry hentry := by
    by_cases heq : entry.1 = key
    · rw [heq]
      exact Or.inr (exists_update_self hnew hmends)
    · refine ((h.stored entry hentry).goesOn (hgone entry.1)).imp_left fun hchild => ?_
      exact ⟨(Function.update_of_ne heq _ _).trans hchild.1, hchild.2⟩
  counted other hother := (h.counted other hother).imp_right fun h => h.goesOn (hgone other)

omit [DecidableEq ι] in
theorem StoreOk.touch (h : StoreOk s) : StoreOk { s with index := s.index.touch key } where
  index := h.index.touch key
  stored entry hentry := h.stored entry ((SizeIndex.mem_touch h.index).1 hentry)
  counted other hother := by
    refine (h.counted other hother).imp_left fun hhas => ?_
    obtain ⟨size, hmem⟩ := SizeIndex.has_iff.1 hhas
    exact SizeIndex.has_iff.2 ⟨size, (SizeIndex.mem_touch h.index).2 hmem⟩

omit [DecidableEq ι] in
theorem Capped.touch (h : Capped o s) : Capped o { s with index := s.index.touch key } :=
  h.imp_left fun hle => by
    show (s.index.touch key).total ≤ o.maxBytes
    rw [SizeIndex.total_touch]
    exact hle

omit [DecidableEq ι] in
/-- The child drops the block that is evicted, which is not counted unless an operation on it is
under way. -/
theorem StoreOk.evictFromChild (h : StoreOk s) (hevicting : s.evicting = some (.deleting key)) :
    StoreOk { s with
      child := Function.update s.child key none, evicting := some (.deleted key) } where
  __ := h
  stored entry hentry := by
    rcases h.stored entry hentry with ⟨hchild, hnot⟩ | hmending
    · have hne : entry.1 ≠ key := by
        rintro rfl
        exact hnot hevicting
      exact Or.inl ⟨(Function.update_of_ne hne _ _).trans hchild, by simp⟩
    · exact Or.inr hmending

/-- **The accounting is kept.**  Every sound step leaves each counted block in the child, or an
operation on it under way. -/
theorem StoreOk.step {event : Event ι Key} (h : StoreOk s ∧ Capped o s) (hsound : Sound o s event)
    (hstep : step o s event = some s') : StoreOk s' ∧ Capped o s' := by
  obtain ⟨hok, hcapped⟩ := h
  cases event with
  | put i key size =>
    obtain ⟨hnone, hstep⟩ := Option.ite_none_left_eq_some.1 hstep
    cases hstep
    simp only [Option.not_isSome_iff_eq_none] at hnone
    exact ⟨hok.goesOn (by simp [hnone]), hcapped.goesOn (by simp [hnone])⟩
  | childPut i =>
    simp only [Helia.step] at hstep
    split at hstep
    · rename_i key size hoperation
      cases hstep
      refine ⟨hok.childChanges (x := .written key size) rfl (by simp [Operation.mends]) ?_,
        hcapped.goesOn ?_⟩
      · simp [hoperation, Operation.mends]
      · simp [hoperation, Operation.rebuilds]
    · cases hstep
  | register i =>
    simp only [Helia.step] at hstep
    split at hstep
    · rename_i key size hoperation
      cases hstep
      obtain ⟨hbacked, hroom⟩ := hsound key size hoperation
      have hcounted : StoreOk ((s.goesOn i none).register key size) := by
        refine hok.register (fun other hne x hx hmends => ?_) hbacked
        rw [hoperation, Option.some.injEq] at hx
        subst hx
        exact absurd hmends (by simpa [Operation.mends] using Ne.symm hne)
      exact hcounted.evictIfNeeded hroom
    · cases hstep
  | delete i key =>
    obtain ⟨hnone, hstep⟩ := Option.ite_none_left_eq_some.1 hstep
    cases hstep
    simp only [Option.not_isSome_iff_eq_none] at hnone
    exact ⟨hok.goesOn (by simp [hnone]), hcapped.goesOn (by simp [hnone])⟩
  | childDelete i =>
    simp only [Helia.step] at hstep
    split at hstep
    · rename_i key hoperation
      cases hstep
      refine ⟨hok.childChanges (x := .deleted key) rfl (by simp [Operation.mends]) ?_,
        hcapped.goesOn ?_⟩
      · simp [hoperation, Operation.mends]
      · simp [hoperation, Operation.rebuilds]
    · cases hstep
  | unregister i =>
    simp only [Helia.step] at hstep
    split at hstep
    · rename_i key hoperation
      cases hstep
      refine ⟨hok.unregister ?_, (hcapped.goesOn ?_).unregister⟩
      · intro other hne x hx hmends
        rw [hoperation, Option.some.injEq] at hx
        subst hx
        exact absurd hmends (by simpa [Operation.mends] using Ne.symm hne)
      · simp [hoperation, Operation.rebuilds]
    · cases hstep
  | get i key =>
    obtain ⟨hnone, hstep⟩ := Option.ite_none_left_eq_some.1 hstep
    cases hstep
    simp only [Option.not_isSome_iff_eq_none] at hnone
    exact ⟨(hok.goesOn (by simp [hnone])).touch, (hcapped.goesOn (by simp [hnone])).touch⟩
  | childGet i =>
    simp only [Helia.step] at hstep
    split at hstep
    · rename_i key known hoperation
      cases hstep
      exact ⟨hok.goesOn (by simp [hoperation, Operation.mends]),
        hcapped.goesOn (by simp [hoperation, Operation.rebuilds])⟩
    · cases hstep
  | consume i =>
    simp only [Helia.step] at hstep
    split at hstep
    · rename_i hoperation
      cases hstep
      exact ⟨hok.goesOn (by simp [hoperation, Operation.mends]),
        hcapped.goesOn (by simp [hoperation, Operation.rebuilds])⟩
    · rename_i key size hoperation
      cases hstep
      obtain ⟨hbacked, hroom⟩ := hsound key size hoperation
      have hcounted : StoreOk ((s.goesOn i none).register key size) :=
        hok.register (by simp [hoperation, Operation.mends]) hbacked
      exact hcounted.evictIfNeeded hroom
    · cases hstep
  | abandon i =>
    simp only [Helia.step] at hstep
    split at hstep <;> first
      | cases hstep; done
      | rename_i hoperation
        cases hstep
        exact ⟨hok.goesOn (by simp [hoperation, Operation.mends]),
          hcapped.goesOn (by simp [hoperation, Operation.rebuilds])⟩
  | notFound i =>
    simp only [Helia.step] at hstep
    split at hstep
    · rename_i key hoperation
      cases hstep
      exact ⟨hok.uncount (by simp [hoperation, Operation.mends]) (hsound key hoperation),
        (hcapped.goesOn (by simp [hoperation, Operation.rebuilds])).unregister⟩
    · cases hstep
  | abort i =>
    simp only [Helia.step] at hstep
    split at hstep
    · rename_i key known hoperation
      cases hstep
      exact ⟨hok.uncount (by simp [hoperation, Operation.mends])
        (hsound key known (Or.inl hoperation)),
        (hcapped.goesOn (by simp [hoperation, Operation.rebuilds])).unregister⟩
    · rename_i key known size hoperation
      cases hstep
      exact ⟨hok.uncount (by simp [hoperation, Operation.mends])
        (hsound key known (Or.inr ⟨size, hoperation⟩)),
        (hcapped.goesOn (by simp [hoperation, Operation.rebuilds])).unregister⟩
    · cases hstep
  | evictFromChild =>
    simp only [Helia.step] at hstep
    split at hstep
    · rename_i key hevicting
      cases hstep
      exact ⟨hok.evictFromChild hevicting, Or.inr (Or.inl ⟨key, Or.inr rfl⟩)⟩
    · cases hstep
  | evictNext =>
    simp only [Helia.step] at hstep
    split at hstep
    · cases hstep
      exact hok.evictLoop
    · cases hstep
  | evictSettles =>
    simp only [Helia.step] at hstep
    split at hstep
    · rename_i hevicting
      cases hstep
      refine ⟨⟨hok.index, fun entry hentry => ?_, hok.counted⟩, ?_⟩
      · exact (hok.stored entry hentry).imp_left fun hchild => ⟨hchild.1, by simp⟩
      · refine hcapped.imp_right fun hcapped => Or.inr (hcapped.resolve_left ?_)
        simp [hevicting]
    · cases hstep
  | rebuildIndex i =>
    obtain ⟨hnone, hstep⟩ := Option.ite_none_left_eq_some.1 hstep
    cases hstep
    simp only [Option.not_isSome_iff_eq_none] at hnone
    exact ⟨hok.goesOn (by simp [hnone]), hcapped.goesOn (by simp [hnone])⟩
  | visit i key =>
    simp only [Helia.step] at hstep
    split at hstep
    · rename_i hoperation
      split at hstep <;> cases hstep
      · exact ⟨hok, hcapped⟩
      · exact ⟨hok.goesOn (by simp [hoperation, Operation.mends]),
          hcapped.goesOn (by simp [hoperation, Operation.rebuilds])⟩
    · cases hstep
  | childMeasure i =>
    simp only [Helia.step] at hstep
    split at hstep
    · rename_i key hoperation
      obtain ⟨size, -, rfl⟩ := Option.map_eq_some_iff.1 hstep
      exact ⟨hok.goesOn (by simp [hoperation, Operation.mends]),
        hcapped.goesOn (by simp [hoperation, Operation.rebuilds])⟩
    · cases hstep
  | count i =>
    simp only [Helia.step] at hstep
    split at hstep
    · rename_i key size hoperation
      cases hstep
      refine ⟨hok.register (by simp [hoperation, Operation.mends])
        ((hsound key size hoperation).goesOn (by simp [hoperation, Operation.mends])), ?_⟩
      exact Or.inr (Or.inr (exists_update_self rfl rfl))
    · cases hstep
  | rebuilt i =>
    have hroom : Room o s := hsound
    simp only [Helia.step] at hstep
    split at hstep <;> first
      | cases hstep; done
      | rename_i hoperation
        cases hstep
        have hdone : StoreOk (s.goesOn i none) :=
          hok.goesOn (by simp [hoperation, Operation.mends])
        exact hdone.evictIfNeeded hroom

omit [DecidableEq ι] in
theorem StoreOk.accounting (h : StoreOk s) (hcapped : Capped o s) (hsettled : Settled s) :
    Accounting o s := by
  have hmending : ∀ key, ¬ Mending s key := by
    rintro key ⟨i, operation, hoperation, -⟩
    rw [hsettled.1 i] at hoperation
    cases hoperation
  refine ⟨fun entry hentry => ?_, h.index.total, fun key hkey => ?_, ?_⟩
  · exact ((h.stored entry hentry).resolve_right (hmending entry.1)).1
  · exact (h.counted key hkey).resolve_right (hmending key)
  · refine hcapped.resolve_right ?_
    simp [hsettled.1, hsettled.2]

/-- A store whose index is empty, over a child that may have blocks already. -/
def Store.new (child : Key → Option Nat) : Store ι Key := { child := child }

/-- **The index says the truth of the child once nothing is under way**, in every run of sound
steps. -/
theorem accounted (o : LruBlockstoreOptions) (child : Key → Option Nat)
    (events : List (Event ι Key)) (s : Store ι Key)
    (hrun : Run (step o) (Sound o) (Store.new child) events s) (hsettled : Settled s) :
    Accounting o s := by
  have hnew : StoreOk (Store.new child : Store ι Key) :=
    ⟨SizeIndex.ok_empty, fun entry hentry => absurd hentry List.not_mem_nil,
      fun key hkey => absurd hkey List.not_mem_nil⟩
  have hinv : StoreOk s ∧ Capped o s :=
    hrun.invariant (I := fun s => StoreOk s ∧ Capped o s)
      (fun s event s' h hsound hstep => StoreOk.step h hsound hstep)
      ⟨hnew, Or.inl (Int.natCast_nonneg _)⟩
  exact hinv.1.accounting hinv.2 hsettled

end Accounting

/-! ### Runs that go wrong -/

def tenBytes : LruBlockstoreOptions := ⟨10, 8, by decide, by decide⟩

/-- A block is put. -/
def puts (i : Fin 2) (key : Nat) : List (Event (Fin 2) Nat) :=
  [.put i key 4, .childPut i, .register i]

/-- The caller aborts a read of a stored block. -/
def abortedRead : List (Event (Fin 2) Nat) := puts 0 1 ++ [.get 0 1, .abort 0]

/-- A block is put again while the child is about to drop it. -/
def putWhileEvicted : List (Event (Fin 2) Nat) :=
  puts 0 1 ++ puts 0 2 ++ puts 0 3 ++ puts 1 1 ++
    [.evictFromChild, .evictNext, .evictFromChild, .evictNext, .evictSettles]

/-- A block is counted when the eviction has ended but is still remembered. -/
def putAfterEviction : List (Event (Fin 2) Nat) :=
  puts 0 1 ++ puts 0 2 ++ puts 0 3 ++ [.evictFromChild, .evictNext] ++ puts 1 4 ++ [.evictSettles]

/-- Two blocks are put at a time, and a third one for which the first is evicted. -/
def putsAndEviction : List (Event (Fin 2) Nat) :=
  [.put 0 1 4, .put 1 2 4, .childPut 1, .childPut 0, .register 0, .register 1] ++ puts 0 3 ++
    [.evictFromChild, .evictNext, .evictSettles]

theorem sound_register {o : LruBlockstoreOptions} {s : Store (Fin 2) Nat} {i : Fin 2}
    {key size : Nat} (hoperation : s.operations i = some (.written key size))
    (hchild : s.child key = some size) (hidle : s.evicting = none) : Sound o s (.register i) := by
  intro key' size' hoperation'
  obtain ⟨rfl, rfl⟩ := Operation.written.inj (Option.some.inj (hoperation.symm.trans hoperation'))
  exact ⟨Or.inl ⟨hchild, by rw [Store.goesOn, hidle]; nofun⟩,
    Or.inr (by rw [Store.register, hidle]; nofun)⟩

theorem accounted_putsAndEviction : ∃ s : Store (Fin 2) Nat,
    Run (step tenBytes) (Sound tenBytes) (Store.new fun _ => none) putsAndEviction s ∧
      Settled s ∧ (s.index.has 1, s.index.has 2, s.index.has 3) = (false, true, true) ∧
        Accounting tenBytes s := by
  have hrun : ∃ s : Store (Fin 2) Nat,
      Run (step tenBytes) (Sound tenBytes) (Store.new fun _ => none) putsAndEviction s ∧
        Settled s ∧ (s.index.has 1, s.index.has 2, s.index.has 3) = (false, true, true) := by
    refine ⟨_, .cons trivial rfl <| .cons trivial rfl <| .cons trivial rfl <| .cons trivial rfl <|
      .cons (sound_register rfl rfl rfl) rfl <| .cons (sound_register rfl rfl rfl) rfl <|
      .cons trivial rfl <| .cons trivial rfl <| .cons (sound_register rfl rfl rfl) rfl <|
      .cons trivial rfl <| .cons trivial rfl <| .cons trivial rfl <| .nil _, ?_, ?_⟩
    · exact ⟨by decide, rfl⟩
    · rfl
  obtain ⟨s, hrun, hsettled, hhas⟩ := hrun
  exact ⟨s, hrun, hsettled, hhas, accounted tenBytes _ _ s hrun hsettled⟩

/-- An aborted read makes a stored block uncounted, an eviction drops a block that was put again,
and the cap is exceeded after an eviction that has just ended. -/
theorem not_accounted :
    ¬ (∀ events s, Run (step tenBytes) anyStep (Store.new fun _ => none : Store (Fin 2) Nat)
        events s → Settled s → Accounting tenBytes s) ∧
      (exec (step tenBytes) (Store.new fun _ => none) putWhileEvicted).map
        (fun s => (s.index.has 1, s.child 1)) = some (true, none) ∧
      (exec (step tenBytes) (Store.new fun _ => none) putAfterEviction).map
        (fun s => s.index.total) = some 12 := by
  refine ⟨fun h => ?_, by decide +kernel, by decide +kernel⟩
  have hexec : (exec (step tenBytes) (Store.new fun _ => none) abortedRead).map
      (fun s : Store (Fin 2) Nat => (decide (∀ i, s.operations i = none), s.evicting, s.kept,
        s.index.has 1)) = some (true, none, [1], false) := by decide +kernel
  obtain ⟨s, hs, hfacts⟩ := Option.map_eq_some_iff.1 hexec
  simp only [Prod.mk.injEq, decide_eq_true_eq] at hfacts
  obtain ⟨hoperations, hevicting, hkept, hhas⟩ := hfacts
  have hcounted := (h abortedRead s (Run.of_exec hs) ⟨hoperations, hevicting⟩).counted 1
    (by simp [hkept])
  simp [hhas] at hcounted

end Helia
end Pkc

import Mathlib.Order.Lattice
import Pkc.Library.PromiseChain
import Pkc.Library.Runs
import Pkc.Library.Tasks

/-!
# The store of IPNS records

The newest record of a name is kept in the local store of the pubsub router.  Gossip, direct fetches
and the router write to it, each with a check of its own that is over before it writes; `put` is
wrapped so that the record is compared once more, with one write of a name at a time.

* `put`, `goOn` and `fail` are what a write does up to its next `await`, in any order of the writes.
* `StoreOk` is the invariant, `StoreOk.step` that it is kept.
* `StoreOk.increasing` and `StoreOk.arrived` are what it promises: the records that are held one
  after the other get newer, and the listeners hear each of them once, in that order.

A record is as good as its rank, which stands for the sequence number and the validity time that
`ipnsSelector` compares.
-/

set_option autoImplicit false

namespace Pkc
namespace Ipns

open Runs Tasks

/-! ## The store -/

/-- Where a write is. -/
inductive PutPhase
  /-- `await previousWrite` -/
  | waiting
  /-- `await originalLocalStoreHas` -/
  | asking
  /-- `await originalLocalStoreGet` -/
  | reading
  /-- `await originalLocalStorePut`, not done yet. -/
  | writing
  /-- The store has the record. -/
  | stored
deriving DecidableEq

structure Put (ρ : Type) where
  record : ρ
  phase : PutPhase

structure Store (ρ ι : Type) where
  /-- With the time it was written. -/
  held : Option (ρ × Nat)
  writes : PromiseChain ι
  puts : ι → Option (Put ρ)
  /-- The records that were held, the newest last. -/
  accepted : List ρ
  /-- The records the listeners have heard of, the newest last. -/
  arrivals : List ρ

inductive StoreEvent (ρ ι : Type)
  | put (i : ι) (record : ρ)
  | goOn (i : ι)
  /-- The store rejects. -/
  | fail (i : ι)

/-- What a step of a write means to others. -/
inductive StoreEffect (ρ : Type)
  | none
  | written (record : ρ)
  | arrived (record : ρ)

section Step

variable {ρ κ ι : Type} [DecidableEq ρ] [LinearOrder κ] [DecidableEq ι]

/-- The index of the better record, the first one if neither is. -/
def ipnsSelector (rank : ρ → κ) (held marshalled : ρ) : Nat :=
  if rank marshalled ≤ rank held then 0 else 1

/-- The record that is held wins. -/
def keeps (rank : ρ → κ) (held marshalled : ρ) : Bool :=
  held = marshalled || ipnsSelector rank held marshalled = 0

omit [DecidableEq ι] in
theorem lt_of_not_keeps {rank : ρ → κ} {held marshalled : ρ}
    (h : keeps rank held marshalled = false) : rank held < rank marshalled := by
  by_contra hnot
  have hselected : ipnsSelector rank held marshalled = 0 := if_pos (not_lt.1 hnot)
  simp [keeps, hselected] at h

namespace Store

def init : Store ρ ι := ⟨none, .empty, fun _ => none, [], []⟩

def setPhase (s : Store ρ ι) (i : ι) (put : Put ρ) (phase : PutPhase) : Store ρ ι :=
  { s with puts := Function.update s.puts i (some { put with phase := phase }) }

/-- The `finally` of a write. -/
def finish (s : Store ρ ι) (i : ι) : Store ρ ι :=
  { s with
    writes := s.writes.settle i
    puts := Function.update s.puts i none }

/-- `put` up to its first `await`. -/
def put (s : Store ρ ι) (i : ι) (record : ρ) : Store ρ ι :=
  { s with
    writes := s.writes.call i
    puts := Function.update s.puts i (some ⟨record, .waiting⟩) }

/-- The record is in the store from now on. -/
def write (s : Store ρ ι) (now : Nat) (i : ι) (put : Put ρ) : Store ρ ι :=
  { s.setPhase i put .stored with
    held := some (put.record, now)
    accepted := s.accepted ++ [put.record] }

/-- The listeners are called, in one go with what comes before. -/
def arrive (s : Store ρ ι) (i : ι) (record : ρ) : Store ρ ι :=
  { s.finish i with arrivals := s.arrivals ++ [record] }

def goOn (rank : ρ → κ) (now : Nat) (s : Store ρ ι) (i : ι) (put : Put ρ) :
    Option (Store ρ ι × StoreEffect ρ) :=
  match put.phase with
  | .waiting => if s.writes.Ready i then some (s.setPhase i put .asking, .none) else none
  | .asking => some (s.setPhase i put (if s.held.isSome then .reading else .writing), .none)
  | .reading =>
    match s.held with
    | none => some (s.finish i, .none)
    | some (held, _) =>
      if keeps rank held put.record then some (s.finish i, .none)
      else some (s.setPhase i put .writing, .none)
  | .writing => some (s.write now i put, .written put.record)
  | .stored => some (s.arrive i put.record, .arrived put.record)

def step (rank : ρ → κ) (now : Nat) (s : Store ρ ι) :
    StoreEvent ρ ι → Option (Store ρ ι × StoreEffect ρ)
  | .put i record =>
    if (s.writes.previous i).isSome then none else some (s.put i record, .none)
  | .goOn i => (s.puts i).bind (s.goOn rank now i)
  | .fail i =>
    (s.puts i).bind fun put =>
      match put.phase with
      | .asking | .reading | .writing => some (s.finish i, .none)
      | _ => none

end Store

/-! ## What the lock keeps -/

/-- The writes under way are queued, and only the first is past its wait.  What it has found out is
still so: the record it is about to write is newer than the one that is held. -/
structure StoreOk (rank : ρ → κ) (s : Store ρ ι) : Prop where
  queued : ∃ q, s.writes.Queued q ∧ (∀ i, (s.puts i).isSome = true ↔ i ∈ q) ∧
    ∀ i put, s.puts i = some put → put.phase ≠ .waiting → q.head? = some i
  writing : ∀ i put, s.puts i = some put → put.phase = .writing →
    ∀ held ∈ s.held, rank held.1 < rank put.record
  stored : ∀ i put, s.puts i = some put → put.phase = .stored →
    s.accepted = s.arrivals ++ [put.record]
  arrived : (∀ i put, s.puts i = some put → put.phase ≠ .stored) → s.accepted = s.arrivals
  last : s.held.map Prod.fst = s.accepted.getLast?
  increasing : s.accepted.Pairwise fun a b => rank a < rank b

omit [DecidableEq ρ] [DecidableEq ι] in
theorem storeOk_init (rank : ρ → κ) : StoreOk rank (Store.init : Store ρ ι) where
  queued := ⟨[], PromiseChain.queued_empty, by simp [Store.init], by simp [Store.init]⟩
  writing := by simp [Store.init]
  stored := by simp [Store.init]
  arrived := fun _ => rfl
  last := rfl
  increasing := .nil

variable {rank : ρ → κ} {s : Store ρ ι} {i : ι} {w : Put ρ} {now : Nat}

omit [DecidableEq ρ] [DecidableEq ι] in
/-- A write that does not wait is the first, and the only one that does not wait. -/
theorem StoreOk.first (h : StoreOk rank s) (hput : s.puts i = some w)
    (hactive : w.phase ≠ .waiting ∨ s.writes.Ready i) :
    ∃ q, s.writes.Queued (i :: q) ∧ (∀ j, (s.puts j).isSome = true ↔ j ∈ i :: q) ∧
      ∀ j other, s.puts j = some other → other.phase ≠ .waiting → j = i := by
  obtain ⟨q, hqueued, hmem, hhead⟩ := h.queued
  have hfirst : q.head? = some i := by
    rcases hactive with hphase | hready
    · exact hhead i w hput hphase
    · exact hqueued.head ((hmem i).1 (by rw [hput]; rfl)) hready
  obtain ⟨q, rfl⟩ : ∃ rest, q = i :: rest := List.head?_eq_some_iff.1 hfirst
  refine ⟨q, hqueued, hmem, fun j other hother hphase => ?_⟩
  have hj := hhead j other hother hphase
  rw [hfirst] at hj
  exact (Option.some.inj hj).symm

omit [DecidableEq ρ] in
theorem StoreOk.put (h : StoreOk rank s) (hnew : s.writes.previous i = none) (record : ρ) :
    StoreOk rank (s.put i record) := by
  obtain ⟨q, hqueued, hmem, hhead⟩ := h.queued
  have hnot : i ∉ q := hqueued.notMem hnew
  refine ⟨⟨q ++ [i], hqueued.call hnew, fun j => ?_, ?_⟩, ?_, ?_, fun hnone => ?_, h.last,
    h.increasing⟩
  · rw [List.mem_append, List.mem_singleton, ← hmem]
    by_cases heq : j = i <;> simp [Store.put, heq]
  · refine forall_update (fun other hother hphase => ?_) fun j other hne hother hphase => ?_
    · rw [← Option.some.inj hother] at hphase
      exact absurd rfl hphase
    · rw [List.head?_append, hhead j other hother hphase]
      rfl
  · refine forall_update (fun other hother hphase => ?_)
      fun j other _ hother => h.writing j other hother
    rw [← Option.some.inj hother] at hphase
    cases hphase
  · refine forall_update (fun other hother hphase => ?_)
      fun j other _ hother => h.stored j other hother
    rw [← Option.some.inj hother] at hphase
    cases hphase
  · refine h.arrived fun j other hother => ?_
    refine hnone j other (update_eq_some.2 (.inr ⟨fun heq => hnot ?_, hother⟩))
    rw [← heq, ← hmem, hother]
    rfl

omit [DecidableEq ρ] in
/-- A write that goes on. -/
theorem StoreOk.setPhase (h : StoreOk rank s) (hput : s.puts i = some w)
    (hactive : w.phase ≠ .waiting ∨ s.writes.Ready i) (hphase : w.phase ≠ .stored)
    {phase : PutPhase} (hstored : phase ≠ .stored)
    (hwriting : phase = .writing → ∀ held ∈ s.held, rank held.1 < rank w.record) :
    StoreOk rank (s.setPhase i w phase) := by
  obtain ⟨q, hqueued, hmem, honly⟩ := h.first hput hactive
  refine ⟨⟨i :: q, hqueued, fun j => ?_, ?_⟩, ?_, ?_, fun hnone => ?_, h.last, h.increasing⟩
  · rw [← hmem]
    by_cases heq : j = i <;> simp [Store.setPhase, heq, hput]
  · refine forall_update (fun other _ _ => rfl) fun j other _ hother hne => ?_
    rw [honly j other hother hne]
    rfl
  · refine forall_update (fun other hother => ?_) fun j other _ hother => h.writing j other hother
    rw [← Option.some.inj hother]
    exact hwriting
  · refine forall_update (fun other hother hstored' => ?_)
      fun j other _ hother => h.stored j other hother
    rw [← Option.some.inj hother] at hstored'
    exact absurd hstored' hstored
  · refine h.arrived fun j other hother => ?_
    by_cases heq : j = i
    · subst heq
      rw [hput] at hother
      rwa [← Option.some.inj hother]
    · exact hnone j other (update_eq_some.2 (.inr ⟨heq, hother⟩))

omit [DecidableEq ρ] in
/-- A write that is over; the next one is the first now. -/
theorem StoreOk.finish (h : StoreOk rank s) (hput : s.puts i = some w)
    (hactive : w.phase ≠ .waiting) {arrivals : List ρ} (harrivals : s.accepted = arrivals) :
    StoreOk rank { s.finish i with arrivals := arrivals } := by
  obtain ⟨q, hqueued, hmem, honly⟩ := h.first hput (.inl hactive)
  have hrest : ∀ j other, (s.finish i).puts j = some other → j ≠ i ∧ s.puts j = some other := by
    intro j other hother
    rcases update_eq_some.1 hother with ⟨-, hnone⟩ | hold
    · cases hnone
    · exact hold
  have hnot := (List.nodup_cons.1 hqueued.nodup).1
  refine ⟨⟨q, hqueued.settle, fun j => ?_, fun j other hother hphase => ?_⟩,
    fun j other hother hphase => ?_, fun j other hother hphase => ?_, fun _ => harrivals, h.last,
    h.increasing⟩
  · by_cases heq : j = i
    · subst heq
      simp [Store.finish, hnot]
    · have hj := hmem j
      rw [List.mem_cons, or_iff_right heq] at hj
      rw [← hj]
      show (Function.update s.puts i none j).isSome = true ↔ _
      rw [Function.update_of_ne heq]
  · obtain ⟨hne, hold⟩ := hrest j other hother
    exact absurd (honly j other hold hphase) hne
  · obtain ⟨hne, hold⟩ := hrest j other hother
    exact absurd (honly j other hold (by rw [hphase]; simp)) hne
  · obtain ⟨hne, hold⟩ := hrest j other hother
    exact absurd (honly j other hold (by rw [hphase]; simp)) hne

omit [DecidableEq ρ] [DecidableEq ι] in
/-- Before a write stores its record, the listeners know all records that were held. -/
theorem StoreOk.accepted_eq (h : StoreOk rank s) (hput : s.puts i = some w)
    (hactive : w.phase ≠ .waiting) (hphase : w.phase ≠ .stored) : s.accepted = s.arrivals := by
  obtain ⟨q, -, -, honly⟩ := h.first hput (.inl hactive)
  refine h.arrived fun j other hother hstored => ?_
  obtain rfl := honly j other hother (by rw [hstored]; simp)
  rw [hput] at hother
  rw [Option.some.inj hother] at hphase
  exact hphase hstored

omit [DecidableEq ρ] [DecidableEq ι] in
/-- The record that is held is the best of all that were. -/
theorem StoreOk.le_held (h : StoreOk rank s) {record : ρ} (hmem : record ∈ s.accepted) :
    ∃ held ∈ s.held, rank record ≤ rank held.1 := by
  rcases s.accepted.eq_nil_or_concat with hnil | ⟨before, last, hsplit⟩
  · rw [hnil] at hmem
    simp at hmem
  · rw [List.concat_eq_append] at hsplit
    have hlast : s.held.map Prod.fst = some last := by
      rw [h.last, hsplit]
      exact List.getLast?_concat
    obtain ⟨held, hheld, rfl⟩ := Option.map_eq_some_iff.1 hlast
    refine ⟨held, hheld, ?_⟩
    have hpairs := h.increasing
    rw [hsplit, List.pairwise_append] at hpairs
    rw [hsplit, List.mem_append, List.mem_singleton] at hmem
    rcases hmem with hmem | rfl
    · exact le_of_lt (hpairs.2.2 record hmem held.1 (by simp))
    · exact le_rfl

omit [DecidableEq ρ] in
/-- **The record that is stored is newer than the one before.** -/
theorem StoreOk.write (h : StoreOk rank s) (hput : s.puts i = some w)
    (hphase : w.phase = .writing) (now : Nat) : StoreOk rank (s.write now i w) := by
  have hactive : w.phase ≠ .waiting := by rw [hphase]; simp
  obtain ⟨q, hqueued, hmem, honly⟩ := h.first hput (.inl hactive)
  have hnewer := h.writing i w hput hphase
  have hknown := h.accepted_eq hput hactive (by rw [hphase]; simp)
  refine ⟨⟨i :: q, hqueued, fun j => ?_, ?_⟩, ?_, ?_, fun hnone => ?_, ?_, ?_⟩
  · rw [← hmem]
    by_cases heq : j = i <;> simp [Store.write, Store.setPhase, heq, hput]
  · refine forall_update (fun other _ _ => rfl) fun j other _ hother hne => ?_
    rw [honly j other hother hne]
    rfl
  · refine forall_update (fun other hother hwriting => ?_) fun j other hne hother hwriting => ?_
    · rw [← Option.some.inj hother] at hwriting
      cases hwriting
    · exact absurd (honly j other hother (by rw [hwriting]; simp)) hne
  · refine forall_update (fun other hother _ => ?_) fun j other hne hother hstored => ?_
    · rw [← Option.some.inj hother]
      show s.accepted ++ [w.record] = s.arrivals ++ [w.record]
      rw [hknown]
    · exact absurd (honly j other hother (by rw [hstored]; simp)) hne
  · exact absurd rfl (hnone i _ (update_eq_some.2 (.inl ⟨rfl, rfl⟩)))
  · exact List.getLast?_concat.symm
  · refine List.pairwise_append.2 ⟨h.increasing, List.pairwise_singleton _ _, fun a ha b hb => ?_⟩
    rw [List.mem_singleton.1 hb]
    obtain ⟨held, hheld, hle⟩ := h.le_held ha
    exact lt_of_le_of_lt hle (hnewer held hheld)

omit [DecidableEq ρ] in
theorem StoreOk.arrive (h : StoreOk rank s) (hput : s.puts i = some w)
    (hphase : w.phase = .stored) : StoreOk rank (s.arrive i w.record) :=
  h.finish hput (by rw [hphase]; simp) (h.stored i w hput hphase)

/-- **Every step of a write keeps the invariant.** -/
theorem StoreOk.step (h : StoreOk rank s) {event : StoreEvent ρ ι} {s' : Store ρ ι}
    {effect : StoreEffect ρ} (hstep : s.step rank now event = some (s', effect)) :
    StoreOk rank s' := by
  cases event with
  | put i record =>
    simp only [Store.step] at hstep
    split at hstep
    · cases hstep
    · rename_i hnew
      obtain ⟨rfl, -⟩ := Prod.mk.inj (Option.some.inj hstep)
      exact h.put (by simpa using hnew) record
  | goOn i =>
    obtain ⟨w, hput, hstep⟩ := Option.bind_eq_some_iff.1 hstep
    rw [Store.goOn] at hstep
    split at hstep
    · rename_i hphase
      split at hstep
      · rename_i hready
        obtain ⟨rfl, -⟩ := Prod.mk.inj (Option.some.inj hstep)
        exact h.setPhase hput (.inr hready) (by simp [hphase]) (by simp) nofun
      · cases hstep
    · rename_i hphase
      obtain ⟨rfl, -⟩ := Prod.mk.inj (Option.some.inj hstep)
      refine h.setPhase hput (.inl (by simp [hphase])) (by simp [hphase]) ?_ fun hwriting => ?_
      · split <;> simp
      · -- it goes on to write when nothing is held
        have hnone : s.held = none := by
          by_contra hsome
          rw [if_pos (Option.isSome_iff_ne_none.2 hsome)] at hwriting
          cases hwriting
        simp [hnone]
    · rename_i hphase
      split at hstep
      · rename_i hnone
        obtain ⟨rfl, -⟩ := Prod.mk.inj (Option.some.inj hstep)
        exact h.finish hput (by simp [hphase])
          (h.accepted_eq hput (by simp [hphase]) (by simp [hphase]))
      · rename_i held created hheld
        split at hstep
        · obtain ⟨rfl, -⟩ := Prod.mk.inj (Option.some.inj hstep)
          exact h.finish hput (by simp [hphase])
            (h.accepted_eq hput (by simp [hphase]) (by simp [hphase]))
        · rename_i hkeeps
          obtain ⟨rfl, -⟩ := Prod.mk.inj (Option.some.inj hstep)
          refine h.setPhase hput (.inl (by simp [hphase])) (by simp [hphase]) (by simp) ?_
          intro _ other hother
          rw [hheld] at hother
          obtain rfl := Option.some.inj hother
          exact lt_of_not_keeps (by simpa using hkeeps)
    · rename_i hphase
      obtain ⟨rfl, -⟩ := Prod.mk.inj (Option.some.inj hstep)
      exact h.write hput hphase now
    · rename_i hphase
      obtain ⟨rfl, -⟩ := Prod.mk.inj (Option.some.inj hstep)
      exact h.arrive hput hphase
  | fail i =>
    obtain ⟨w, hput, hstep⟩ := Option.bind_eq_some_iff.1 hstep
    have hover : ∀ {phase : PutPhase}, w.phase = phase → phase ≠ .waiting → phase ≠ .stored →
        StoreOk rank (s.finish i) := by
      rintro phase rfl hwaiting hstored
      exact h.finish hput hwaiting (h.accepted_eq hput hwaiting hstored)
    split at hstep
    · rename_i hphase
      obtain ⟨rfl, -⟩ := Prod.mk.inj (Option.some.inj hstep)
      exact hover hphase (by simp) (by simp)
    · rename_i hphase
      obtain ⟨rfl, -⟩ := Prod.mk.inj (Option.some.inj hstep)
      exact hover hphase (by simp) (by simp)
    · rename_i hphase
      obtain ⟨rfl, -⟩ := Prod.mk.inj (Option.some.inj hstep)
      exact hover hphase (by simp) (by simp)
    · cases hstep

/-- What a step does to what others see of the store. -/
theorem Store.step_effect {event : StoreEvent ρ ι} {s' : Store ρ ι} {effect : StoreEffect ρ}
    (hstep : s.step rank now event = some (s', effect)) :
    match effect with
    | .none => s'.held = s.held ∧ s'.accepted = s.accepted ∧ s'.arrivals = s.arrivals
    | .written record => s'.held = some (record, now) ∧ s'.accepted = s.accepted ++ [record] ∧
        s'.arrivals = s.arrivals
    | .arrived record => s'.held = s.held ∧ s'.accepted = s.accepted ∧
        s'.arrivals = s.arrivals ++ [record] := by
  cases event with
  | put i record =>
    simp only [Store.step] at hstep
    split at hstep
    · cases hstep
    · obtain ⟨rfl, rfl⟩ := Prod.mk.inj (Option.some.inj hstep)
      exact ⟨rfl, rfl, rfl⟩
  | goOn i =>
    obtain ⟨w, -, hstep⟩ := Option.bind_eq_some_iff.1 hstep
    rw [Store.goOn] at hstep
    repeat' split at hstep
    all_goals first
      | cases hstep
        done
      | obtain ⟨rfl, rfl⟩ := Prod.mk.inj (Option.some.inj hstep)
        exact ⟨rfl, rfl, rfl⟩
  | fail i =>
    obtain ⟨w, -, hstep⟩ := Option.bind_eq_some_iff.1 hstep
    split at hstep
    all_goals first
      | cases hstep
        done
      | obtain ⟨rfl, rfl⟩ := Prod.mk.inj (Option.some.inj hstep)
        exact ⟨rfl, rfl, rfl⟩

end Step

end Ipns
end Pkc

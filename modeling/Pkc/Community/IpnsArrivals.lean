import Mathlib.Data.Finset.Basic
import Mathlib.Data.Finset.Filter
import Pkc.Community.LoadedCids
import Pkc.Library.Liveness

/-!
# Records that arrive while a community is updating

The update loop of a community parks between two updates, and a record that is pushed ends the park.
What arrives while an update is under way is kept until the loop would park again.

* `onIpnsRecordArrival`, `consumePendingIpnsArrivals` and `step` are the listener, the check before
  the park, and what the loop, its timer and a key migration do.
* `Arrival.fate` is the history of what becomes of an arrival, and `unprompted` that of the updates
  which the timer or a key migration started.
* `Sound` is what holds of them in every state: the loop does not wait for its timer while there is
  something that it has not reacted to, and there is no update without a reason.
* A key migration forgets what is pending; `arrivals_prompt_updates` is about all other arrivals.
-/

set_option autoImplicit false

namespace Pkc
namespace IpnsArrivals

open Runs Liveness
open LoadedCids (limitedSetAdd)

/-! ## The loop -/

/-- The value of an IPNS record. -/
inductive Value
  | ipfs (cid : String)
  | ipns (hopTarget : String)
  | unsupported
deriving DecidableEq, Repr

/-- What becomes of an arrival. -/
inductive Fate
  /-- It was on record when it arrived, or has no value of use. -/
  | ignored
  /-- Its hop was on the chain when it arrived, but while an update was under way, which may walk
  another one. -/
  | overlooked
  | pending
  /-- It was on record when an update ended. -/
  | consumed
  /-- A key migration has dropped it. -/
  | migrated
  /-- Update `n` is the reaction. -/
  | prompted (n : Nat)
deriving DecidableEq, Repr

/-- An arrival with this fate has been dealt with. -/
def Fate.answered : Fate → Bool
  | .consumed | .migrated | .prompted _ => true
  | _ => false

structure Arrival where
  value : Value
  /-- How many updates had started. -/
  during : Nat
  fate : Fate
deriving DecidableEq, Repr

inductive Phase
  /-- `updateOnce` is under way. -/
  | updating
  /-- In `_sleepUntilIpnsArrivalOrTimeoutOrAbort`; `ended` once the sleep has been settled. -/
  | parked (wokenByArrival ended : Bool)
  /-- The park is over, the next `updateOnce` has not begun. -/
  | returned
deriving DecidableEq, Repr

structure State where
  updateCidsAlreadyLoaded : List String
  updateCid : Option String
  ipnsHops : Option (List String)
  pendingIpnsArrivalCids : Finset String
  pendingIpnsArrivalHopTargets : Finset String
  phase : Phase
  /-- How many updates have started. -/
  started : Nat
  arrivals : List Arrival
  /-- The updates that follow a park which the timer or a key migration has ended. -/
  unprompted : Finset Nat

/-- Before the first update. -/
def init (updateCidsAlreadyLoaded : List String) (updateCid : Option String)
    (ipnsHops : Option (List String)) : State where
  updateCidsAlreadyLoaded := updateCidsAlreadyLoaded
  updateCid := updateCid
  ipnsHops := ipnsHops
  pendingIpnsArrivalCids := ∅
  pendingIpnsArrivalHopTargets := ∅
  phase := .returned
  started := 0
  arrivals := []
  unprompted := ∅

/-- The value has been consumed: the CID is loaded, the hop is on the chain. -/
def State.recorded (s : State) : Value → Bool
  | .ipfs cid => s.updateCidsAlreadyLoaded.contains cid || s.updateCid == some cid
  | .ipns hopTarget => s.ipnsHops.any fun ipnsHops => ipnsHops.contains hopTarget
  | .unsupported => false

def Phase.woken : Phase → Phase
  | .parked _ _ => .parked true true
  | phase => phase

/-- `_wakeUpdateLoopForIpnsArrival`, if there is one. -/
def wakeUpdateLoopForIpnsArrival (s : State) : State := { s with phase := s.phase.woken }

def onIpnsRecordArrival (value : Value) (s : State) : State :=
  match value with
  | .ipfs cid =>
    if s.recorded (.ipfs cid) then s
    else wakeUpdateLoopForIpnsArrival
      { s with pendingIpnsArrivalCids := insert cid s.pendingIpnsArrivalCids }
  | .ipns hopTarget =>
    if s.recorded (.ipns hopTarget) then s
    else wakeUpdateLoopForIpnsArrival
      { s with pendingIpnsArrivalHopTargets := insert hopTarget s.pendingIpnsArrivalHopTargets }
  | .unsupported => s

def State.clearPending (s : State) : State :=
  { s with pendingIpnsArrivalCids := ∅, pendingIpnsArrivalHopTargets := ∅ }

/-- Whether anything is left that the update which just ran has not consumed. -/
def consumePendingIpnsArrivals (s : State) : Bool × State :=
  let cids := s.pendingIpnsArrivalCids.filter fun cid => s.recorded (.ipfs cid) = false
  let hopTargets := s.pendingIpnsArrivalHopTargets.filter fun hopTarget =>
    s.recorded (.ipns hopTarget) = false
  if cids = ∅ ∧ hopTargets = ∅ then
    (false, { s with pendingIpnsArrivalCids := cids, pendingIpnsArrivalHopTargets := hopTargets })
  else (true, s.clearPending)

/-! ## History -/

/-- An arrival is pending unless it is on record. -/
def State.isNews (s : State) : Value → Bool
  | .unsupported => false
  | value => !s.recorded value

/-- The fate of an arrival that has been made out by now. -/
def State.fateOf (s : State) (value : Value) : Fate :=
  if s.isNews value then .pending
  else
    match value, s.phase with
    | .ipns _, .updating => .overlooked
    | _, _ => .ignored

/-- No update is the reaction to an arrival that was overlooked. -/
def Arrival.answer (fate : Value → Fate) (arrival : Arrival) : Arrival :=
  if arrival.fate = .pending ∨ arrival.fate = .overlooked ∧
      (fate arrival.value = .consumed ∨ fate arrival.value = .migrated) then
    { arrival with fate := fate arrival.value }
  else arrival

/-- What becomes of the arrivals that are pending or were overlooked. -/
def State.answer (fate : Value → Fate) (s : State) : State :=
  { s with arrivals := s.arrivals.map (Arrival.answer fate) }

/-- What an update makes of an arrival by the time it ends. -/
def State.reaction (s : State) (value : Value) : Fate :=
  if s.recorded value then .consumed else .prompted (s.started + 1)

def State.log (value : Value) (s : State) : List Arrival :=
  s.arrivals ++ [⟨value, s.started, s.fateOf value⟩]

/-! ## What may happen -/

inductive Action
  | arrive (value : Value)
  /-- A fetch marks the CID as loaded. -/
  | load (cid : String)
  | setUpdateCid (cid : String)
  /-- A fetch has walked the chain. -/
  | walk (ipnsHops : List String)
  /-- `updateOnce` has returned or thrown. -/
  | finish
  /-- The safety net. -/
  | timer
  /-- The park goes on from its await. -/
  | wake
  | start
  | applyKeyMigration (newPublicKey : String)
deriving DecidableEq, Repr

/-- The end of an update, up to the next await. -/
def finish (s : State) : State :=
  let consumed := consumePendingIpnsArrivals (s.answer s.reaction)
  { consumed.2 with phase := if consumed.1 then .returned else .parked false false }

def wake (wokenByArrival : Bool) (s : State) : State :=
  if wokenByArrival then
    { (s.answer fun _ => .prompted (s.started + 1)).clearPending with phase := .returned }
  else { s with phase := .returned }

/-- The abort of the stop signal ends the park. -/
def applyKeyMigration (newPublicKey : String) (s : State) : State :=
  let s := { (s.answer fun _ => .migrated).clearPending with
    updateCidsAlreadyLoaded := []
    updateCid := none
    ipnsHops := some [newPublicKey] }
  match s.phase with
  | .parked wokenByArrival _ =>
    { s with
      phase := .parked wokenByArrival true
      unprompted := insert (s.started + 1) s.unprompted }
  | _ => s

def step (s : State) : Action → Option State
  | .arrive value => some { onIpnsRecordArrival value s with arrivals := s.log value }
  | .load cid =>
    some { s with updateCidsAlreadyLoaded := limitedSetAdd 30 s.updateCidsAlreadyLoaded cid }
  | .setUpdateCid cid => some { s with updateCid := some cid }
  | .walk ipnsHops => some { s with ipnsHops := some ipnsHops }
  | .finish => if s.phase = .updating then some (finish s) else none
  | .timer =>
    match s.phase with
    | .parked wokenByArrival false =>
      some { s with
        phase := .parked wokenByArrival true
        unprompted := insert (s.started + 1) s.unprompted }
    | _ => none
  | .wake =>
    match s.phase with
    | .parked wokenByArrival true => some (wake wokenByArrival s)
    | _ => none
  | .start =>
    if s.phase = .returned then some { s with phase := .updating, started := s.started + 1 }
    else none
  | .applyKeyMigration newPublicKey => some (applyKeyMigration newPublicKey s)

/-! ## What is wanted -/

/-- Nothing but the timer ends the park as things are. -/
def State.waiting (s : State) : Bool :=
  match s.phase with
  | .parked _ false => true
  | _ => false

/-- The updates that have started, with the one that is about to. -/
def State.begun (s : State) : Nat := s.started + if s.phase = .returned then 1 else 0

/-- The entry of a value. -/
def State.Pending (s : State) : Value → Prop
  | .ipfs cid => cid ∈ s.pendingIpnsArrivalCids
  | .ipns hopTarget => hopTarget ∈ s.pendingIpnsArrivalHopTargets
  | .unsupported => False

structure Sound (s : State) : Prop where
  /-- The loop does not wait for its timer while it has something to react to. -/
  awake : ∀ a ∈ s.arrivals, a.fate = .pending → s.waiting = false
  /-- The reaction starts after the arrival. -/
  later : ∀ a ∈ s.arrivals, ∀ n, a.fate = .prompted n → a.during < n ∧ n ≤ s.begun
  /-- Every update but the first has a reason. -/
  reason : ∀ n, 1 < n → n ≤ s.begun →
    n ∈ s.unprompted ∨ ∃ a ∈ s.arrivals, a.fate = .prompted n
  /-- The entries are of arrivals without a reaction. -/
  entries : ∀ value, (∀ a ∈ s.arrivals, a.value = value → a.fate ≠ .overlooked) →
    (s.Pending value ↔ ∃ a ∈ s.arrivals, a.value = value ∧ a.fate = .pending)
  /-- They are from the last cycle. -/
  recent : ∀ a ∈ s.arrivals, a.fate = .pending → s.started ≤ a.during + 1

/-- What is awaited ends, and the loop goes on; the timer may never fire. -/
structure FairLoop (e : Execution step) : Prop where
  finishes : Fair e (fun s => s.phase = .updating) (· = .finish)
  wakes : Fair e (fun s => ∃ wokenByArrival, s.phase = .parked wokenByArrival true) (· = .wake)
  starts : Fair e (fun s => s.phase = .returned) (· = .start)

/-- Arrival `i` is pending. -/
def Awaits (i : Nat) (s : State) : Prop := ∃ a, s.arrivals[i]? = some a ∧ a.fate = .pending

/-- Arrival `i` has been consumed or dropped by a key migration, or an update has started that is
the reaction. -/
def Followed (i : Nat) (s : State) : Prop :=
  ∃ a, s.arrivals[i]? = some a ∧ (a.fate = .consumed ∨ a.fate = .migrated ∨
    ∃ n, a.fate = .prompted n ∧ a.during < n ∧ n ≤ s.started)

/-! ## One arrival -/

section Arrivals

variable {s s' : State} {value : Value} {fate : Value → Fate} {arrival : Arrival} {a : Action}
  {i : Nat}

theorem answer_of_pending (h : arrival.fate = .pending) :
    arrival.answer fate = { arrival with fate := fate arrival.value } := if_pos (.inl h)

theorem answer_of_not_pending (fate : Value → Fate) (h : arrival.fate ≠ .pending) :
    arrival.answer fate = arrival ∨ arrival.fate = .overlooked ∧
      (fate arrival.value = .consumed ∨ fate arrival.value = .migrated) ∧
      arrival.answer fate = { arrival with fate := fate arrival.value } := by
  by_cases hsettled : arrival.fate = .overlooked ∧
      (fate arrival.value = .consumed ∨ fate arrival.value = .migrated)
  · exact .inr ⟨hsettled.1, hsettled.2, if_pos (.inr hsettled)⟩
  · exact .inl (if_neg (not_or.2 ⟨h, hsettled⟩))

theorem answer_of_final (h : arrival.fate ≠ .pending) (h' : arrival.fate ≠ .overlooked) :
    arrival.answer fate = arrival :=
  (answer_of_not_pending _ h).resolve_right fun hsettled => h' hsettled.1

theorem map_answer_pending (arrivals : List Arrival) :
    arrivals.map (Arrival.answer fun _ => .pending) = arrivals := by
  refine List.map_id'' (fun arrival => ?_) arrivals
  by_cases h : arrival.fate = .pending
  · rw [answer_of_pending h, ← h]
  · exact (answer_of_not_pending _ h).resolve_right (by simp)

@[simp] theorem during_answer : (arrival.answer fate).during = arrival.during := by
  rw [Arrival.answer]
  split
  · rfl
  · rfl

theorem fateOf_of_not_news (h : s.isNews value = false) :
    s.fateOf value = .overlooked ∨ s.fateOf value = .ignored := by
  unfold State.fateOf
  rw [if_neg (by simp [h])]
  split
  · exact .inl rfl
  · exact .inr rfl

theorem onIpnsRecordArrival_of_not_news (h : s.isNews value = false) :
    onIpnsRecordArrival value s = s := by
  cases value with
  | ipfs cid => exact if_pos (by simpa [State.isNews] using h)
  | ipns hopTarget => exact if_pos (by simpa [State.isNews] using h)
  | unsupported => rfl

/-- News is entered, and a parked loop wakes. -/
theorem onIpnsRecordArrival_of_news (h : s.isNews value) : ∃ cids hopTargets,
    onIpnsRecordArrival value s =
      { s with
        pendingIpnsArrivalCids := cids
        pendingIpnsArrivalHopTargets := hopTargets
        phase := s.phase.woken } ∧
      ∀ other, (onIpnsRecordArrival value s).Pending other ↔ other = value ∨ s.Pending other := by
  cases value with
  | ipfs cid =>
    have hnot : ¬ s.recorded (.ipfs cid) := by simpa [State.isNews] using h
    have heq : onIpnsRecordArrival (.ipfs cid) s = _ := if_neg hnot
    rw [heq]
    refine ⟨_, _, rfl, fun other => ?_⟩
    cases other with
    | ipfs other => simp [wakeUpdateLoopForIpnsArrival, State.Pending]
    | ipns hopTarget => simp [wakeUpdateLoopForIpnsArrival, State.Pending]
    | unsupported => simp [State.Pending]
  | ipns hopTarget =>
    have hnot : ¬ s.recorded (.ipns hopTarget) := by simpa [State.isNews] using h
    have heq : onIpnsRecordArrival (.ipns hopTarget) s = _ := if_neg hnot
    rw [heq]
    refine ⟨_, _, rfl, fun other => ?_⟩
    cases other with
    | ipfs other => simp [wakeUpdateLoopForIpnsArrival, State.Pending]
    | ipns hopTarget => simp [wakeUpdateLoopForIpnsArrival, State.Pending]
    | unsupported => simp [State.Pending]
  | unsupported => cases h

theorem reaction_ne_pending (s : State) (value : Value) : s.reaction value ≠ .pending := by
  rw [State.reaction]
  split
  · simp
  · simp

theorem answered_reaction (s : State) (value : Value) : (s.reaction value).answered := by
  rw [State.reaction]
  split
  · rfl
  · rfl

theorem arrivals_finish (s : State) :
    (finish s).arrivals = s.arrivals.map (Arrival.answer s.reaction) := by
  simp only [finish, consumePendingIpnsArrivals]
  split
  · rfl
  · rfl

theorem arrivals_applyKeyMigration (s : State) (newPublicKey : String) :
    (applyKeyMigration newPublicKey s).arrivals =
      s.arrivals.map (Arrival.answer fun _ => .migrated) := by
  rw [applyKeyMigration]
  split
  · rfl
  · rfl

/-- What a step does to the arrivals there are. -/
theorem arrivals_of_step (h : step s a = some s') : ∃ fate new,
    (∀ value, fate value = .pending ∨ (fate value).answered) ∧
    s'.arrivals = s.arrivals.map (Arrival.answer fate) ++ new := by
  have hsame : (∀ value : Value, (fun _ => Fate.pending) value = .pending ∨
        ((fun _ => Fate.pending) value).answered) ∧
      s.arrivals = s.arrivals.map (Arrival.answer fun _ => .pending) ++ [] := by
    rw [map_answer_pending, List.append_nil]
    exact ⟨by simp, rfl⟩
  cases a with
  | arrive value =>
    cases h
    refine ⟨fun _ => .pending, [⟨value, s.started, s.fateOf value⟩], by simp, ?_⟩
    rw [map_answer_pending]
    rfl
  | load cid => cases h; exact ⟨_, _, hsame⟩
  | setUpdateCid cid => cases h; exact ⟨_, _, hsame⟩
  | walk ipnsHops => cases h; exact ⟨_, _, hsame⟩
  | finish =>
    obtain ⟨-, hs⟩ := Option.ite_none_right_eq_some.1 h
    cases hs
    exact ⟨_, [], fun value => .inr (answered_reaction s value),
      (arrivals_finish s).trans (List.append_nil _).symm⟩
  | timer =>
    simp only [step] at h
    split at h
    · cases h; exact ⟨_, _, hsame⟩
    · cases h
  | wake =>
    simp only [step] at h
    split at h
    · cases h
      rename_i wokenByArrival _
      cases wokenByArrival with
      | true =>
        exact ⟨fun _ => .prompted (s.started + 1), [], fun _ => .inr rfl, (List.append_nil _).symm⟩
      | false => exact ⟨_, _, hsame⟩
    · cases h
  | start =>
    obtain ⟨-, hs⟩ := Option.ite_none_right_eq_some.1 h
    cases hs
    exact ⟨_, _, hsame⟩
  | applyKeyMigration newPublicKey =>
    cases h
    exact ⟨fun _ => .migrated, [], fun _ => .inr rfl,
      (arrivals_applyKeyMigration s newPublicKey).trans (List.append_nil _).symm⟩

/-- **What has become of an arrival is final.** -/
theorem final_of_step (h : step s a = some s') (hi : s.arrivals[i]? = some arrival)
    (hpending : arrival.fate ≠ .pending) (hoverlooked : arrival.fate ≠ .overlooked) :
    s'.arrivals[i]? = some arrival := by
  obtain ⟨fate, new, -, hs⟩ := arrivals_of_step h
  obtain ⟨hlt, -⟩ := List.getElem?_eq_some_iff.1 hi
  rw [hs, List.getElem?_append_left (by simpa using hlt), List.getElem?_map, hi, Option.map_some,
    answer_of_final hpending hoverlooked]

end Arrivals

/-! ## Every state -/

section Steps

variable {s s' : State}

theorem started_le_begun (s : State) : s.started ≤ s.begun := Nat.le_add_right _ _

theorem begun_le (s : State) : s.begun ≤ s.started + 1 := by
  rw [State.begun]
  split
  · exact Nat.le_refl _
  · exact Nat.le_succ _

theorem not_pending_clearPending (s : State) (value : Value) : ¬ s.clearPending.Pending value := by
  cases value with
  | ipfs cid => exact Finset.notMem_empty cid
  | ipns hopTarget => exact Finset.notMem_empty hopTarget
  | unsupported => exact id

/-- The check leaves nothing pending, and sees what has not been consumed. -/
theorem consumePendingIpnsArrivals_spec (s : State) :
    (consumePendingIpnsArrivals s).2 = s.clearPending ∧
      ((consumePendingIpnsArrivals s).1 = true ↔
        ∃ value, s.Pending value ∧ s.recorded value = false) := by
  rw [consumePendingIpnsArrivals]
  split
  · rename_i hempty
    obtain ⟨hcids, hhopTargets⟩ := hempty
    rw [hcids, hhopTargets]
    refine ⟨rfl, iff_of_false Bool.false_ne_true ?_⟩
    rintro ⟨value, hpending, hnot⟩
    cases value with
    | ipfs cid => exact Finset.filter_eq_empty_iff.1 hcids hpending hnot
    | ipns hopTarget => exact Finset.filter_eq_empty_iff.1 hhopTargets hpending hnot
    | unsupported => exact hpending
  · rename_i hleft
    refine ⟨rfl, iff_of_true rfl ?_⟩
    by_contra hnone
    refine hleft ⟨?_, ?_⟩
    · exact Finset.filter_eq_empty_iff.2 fun cid hmem hnot => hnone ⟨.ipfs cid, hmem, hnot⟩
    · exact Finset.filter_eq_empty_iff.2 fun hopTarget hmem hnot =>
        hnone ⟨.ipns hopTarget, hmem, hnot⟩

/-- What holds in every state. -/
structure Inv (s : State) : Prop where
  entries : ∀ value, s.Pending value ↔ ∃ a ∈ s.arrivals, a.value = value ∧ a.fate = .pending
  /-- A park begins with nothing to react to. -/
  parked : s.waiting → ∀ value, ¬ s.Pending value
  /-- A park has been ended by something. -/
  woken : ∀ wokenByArrival, s.phase = .parked wokenByArrival true →
    s.started + 1 ∈ s.unprompted ∨ wokenByArrival ∧ ∃ value, s.Pending value
  past : ∀ a ∈ s.arrivals, a.during ≤ s.started
  recent : ∀ a ∈ s.arrivals, a.fate = .pending →
    a.during = s.started ∨ a.during + 1 = s.started ∧ s.phase = .updating
  later : ∀ a ∈ s.arrivals, ∀ n, a.fate = .prompted n → a.during < n ∧ n ≤ s.begun
  reason : ∀ n, 1 < n → n ≤ s.begun →
    n ∈ s.unprompted ∨ ∃ a ∈ s.arrivals, a.fate = .prompted n

namespace Inv

theorem init (updateCidsAlreadyLoaded : List String) (updateCid : Option String)
    (ipnsHops : Option (List String)) :
    Inv (init updateCidsAlreadyLoaded updateCid ipnsHops) where
  entries value := by
    cases value with
    | ipfs cid => simp [IpnsArrivals.init, State.Pending]
    | ipns hopTarget => simp [IpnsArrivals.init, State.Pending]
    | unsupported => simp [IpnsArrivals.init, State.Pending]
  parked hwaiting := by cases hwaiting
  woken _ hphase := by cases hphase
  past a hmem := by cases hmem
  recent a hmem := by cases hmem
  later a hmem := by cases hmem
  reason n hlt hle := absurd hlt (Nat.not_lt.2 hle)

theorem sound (h : Inv s) : Sound s where
  __ := h
  awake a hmem hpending := by
    by_contra hwaiting
    rw [Bool.not_eq_false] at hwaiting
    exact h.parked hwaiting a.value ((h.entries _).2 ⟨a, hmem, rfl, hpending⟩)
  entries value _ := h.entries value
  recent a hmem hpending := by
    rcases h.recent a hmem hpending with hnow | ⟨hlast, -⟩
    · exact hnow ▸ Nat.le_succ _
    · exact hlast ▸ Nat.le_refl _

theorem arrive (h : Inv s) (value : Value) :
    Inv { onIpnsRecordArrival value s with arrivals := s.log value } := by
  have hbegun : (s.phase.woken = .returned) = (s.phase = .returned) := by
    cases s.phase with
    | parked _ _ => simp [Phase.woken]
    | _ => rfl
  have hpast : ∀ a ∈ s.log value, a.during ≤ s.started := by
    intro a hmem
    rcases List.mem_append.1 hmem with hold | hnew
    · exact h.past a hold
    · rw [List.mem_singleton.1 hnew]
  have hreason : ∀ n, 1 < n → n ≤ s.begun →
      n ∈ s.unprompted ∨ ∃ a ∈ s.log value, a.fate = .prompted n := by
    intro n hlt hle
    refine (h.reason n hlt hle).imp_right ?_
    rintro ⟨a, hmem, hfate⟩
    exact ⟨a, List.mem_append_left _ hmem, hfate⟩
  by_cases hnews : s.isNews value
  · obtain ⟨cids, hopTargets, heq, hentries⟩ := onIpnsRecordArrival_of_news hnews
    have hlog : s.log value = s.arrivals ++ [⟨value, s.started, .pending⟩] := by
      rw [State.log, show s.fateOf value = .pending from if_pos hnews]
    rw [heq] at hentries ⊢
    constructor
    case entries =>
      intro other
      have hother := hentries other
      rw [h.entries] at hother
      refine hother.trans ?_
      simp only [hlog, List.mem_append, List.mem_singleton]
      constructor
      · rintro (rfl | ⟨a, hmem, ha⟩)
        · exact ⟨_, .inr rfl, rfl, rfl⟩
        · exact ⟨a, .inl hmem, ha⟩
      · rintro ⟨a, hmem | rfl, hvalue, hpending⟩
        · exact .inr ⟨a, hmem, hvalue, hpending⟩
        · exact .inl hvalue.symm
    case parked =>
      intro hwaiting
      simp only [State.waiting] at hwaiting
      cases hphase : s.phase with
      | _ => simp [hphase, Phase.woken] at hwaiting
    case woken =>
      intro wokenByArrival hphase
      refine .inr ⟨?_, value, (hentries value).2 (.inl rfl)⟩
      cases hold : s.phase with
      | parked _ _ =>
        simp only [hold, Phase.woken] at hphase
        cases hphase
        rfl
      | _ => simp [hold, Phase.woken] at hphase
    case past => exact hpast
    case recent =>
      intro a hmem hpending
      simp only [hlog, List.mem_append, List.mem_singleton] at hmem
      rcases hmem with hold | rfl
      · refine (h.recent a hold hpending).imp_right ?_
        rintro ⟨hlast, hphase⟩
        exact ⟨hlast, by simp only [hphase, Phase.woken]⟩
      · exact .inl rfl
    case later =>
      intro a hmem n hprompted
      simp only [hlog, List.mem_append, List.mem_singleton] at hmem
      simp only [State.begun, hbegun]
      rcases hmem with hold | rfl
      · exact h.later a hold n hprompted
      · cases hprompted
    case reason =>
      simp only [State.begun, hbegun]
      exact hreason
  · have hlog : s.log value = s.arrivals ++ [⟨value, s.started, s.fateOf value⟩] := rfl
    have hfate := fateOf_of_not_news (Bool.eq_false_iff.2 hnews)
    rw [onIpnsRecordArrival_of_not_news (Bool.eq_false_iff.2 hnews)]
    refine { h with entries := fun other => ?_, past := hpast, recent := fun a hmem hpending => ?_,
                    later := fun a hmem n hprompted => ?_, reason := hreason }
    · refine (h.entries other).trans ?_
      simp only [hlog, List.mem_append, List.mem_singleton]
      constructor
      · rintro ⟨a, hmem, ha⟩
        exact ⟨a, .inl hmem, ha⟩
      · rintro ⟨a, hmem | rfl, ha⟩
        · exact ⟨a, hmem, ha⟩
        · rw [show s.fateOf value = .pending from ha.2] at hfate
          simp at hfate
    · simp only [hlog, List.mem_append, List.mem_singleton] at hmem
      rcases hmem with hold | rfl
      · exact h.recent a hold hpending
      · rw [show s.fateOf value = .pending from hpending] at hfate
        simp at hfate
    · simp only [hlog, List.mem_append, List.mem_singleton] at hmem
      rcases hmem with hold | rfl
      · exact h.later a hold n hprompted
      · rw [show s.fateOf value = .prompted n from hprompted] at hfate
        simp at hfate

/-- Everything that is pending is dealt with. -/
theorem answer {f : Value → Fate} (h : Inv s)
    (harrivals : s'.arrivals = s.arrivals.map (Arrival.answer f))
    (hstarted : s'.started = s.started) (hdone : ∀ value, f value ≠ .pending)
    (hprompted : ∀ value n, s.Pending value → f value = .prompted n →
      n = s.started + 1 ∧ s'.phase = .returned)
    (hcleared : ∀ value, ¬ s'.Pending value) (hunprompted : s.unprompted ⊆ s'.unprompted)
    (hwoken : ∀ wokenByArrival, s'.phase = .parked wokenByArrival true →
      s.started + 1 ∈ s'.unprompted)
    (hbegun : s'.begun = s.begun ∨ s'.begun = s.started + 1 ∧ (s.started + 1 ∈ s'.unprompted ∨
      ∃ value, s.Pending value ∧ f value = .prompted (s.started + 1))) : Inv s' := by
  have hle : s.begun ≤ s'.begun := by
    rcases hbegun with hsame | ⟨hnext, -⟩
    · exact hsame.ge
    · exact hnext ▸ begun_le s
  have hold : ∀ a ∈ s.arrivals, ∀ n, a.fate = .prompted n →
      ∃ a ∈ s'.arrivals, a.fate = .prompted n := by
    intro a hmem n hfate
    refine ⟨a, ?_, hfate⟩
    rw [harrivals]
    exact List.mem_map.2 ⟨a, hmem, answer_of_final (by simp [hfate]) (by simp [hfate])⟩
  have hnone : ∀ a ∈ s'.arrivals, a.fate ≠ .pending := by
    intro a hmem
    rw [harrivals] at hmem
    obtain ⟨b, -, rfl⟩ := List.mem_map.1 hmem
    by_cases hpending : b.fate = .pending
    · rw [answer_of_pending hpending]
      exact hdone b.value
    · rcases answer_of_not_pending f hpending with hsame | ⟨-, -, hsettled⟩
      · rwa [hsame]
      · rw [hsettled]
        exact hdone b.value
  constructor
  case entries =>
    intro value
    refine iff_of_false (hcleared value) ?_
    rintro ⟨a, hmem, -, hpending⟩
    exact hnone a hmem hpending
  case parked => exact fun _ => hcleared
  case woken =>
    intro wokenByArrival hphase
    rw [hstarted]
    exact .inl (hwoken wokenByArrival hphase)
  case past =>
    intro a hmem
    rw [harrivals] at hmem
    obtain ⟨b, hb, rfl⟩ := List.mem_map.1 hmem
    rw [hstarted, during_answer]
    exact h.past b hb
  case recent => exact fun a hmem hpending => absurd hpending (hnone a hmem)
  case later =>
    intro a hmem n hfate
    rw [harrivals] at hmem
    obtain ⟨b, hb, rfl⟩ := List.mem_map.1 hmem
    rw [during_answer]
    by_cases hpending : b.fate = .pending
    · rw [answer_of_pending hpending] at hfate
      obtain ⟨rfl, hphase⟩ :=
        hprompted b.value n ((h.entries _).2 ⟨b, hb, rfl, hpending⟩) hfate
      refine ⟨Nat.lt_succ_of_le (h.past b hb), ?_⟩
      rw [State.begun, hstarted, if_pos hphase]
    · rcases answer_of_not_pending f hpending with hsame | ⟨-, hvalue, hsettled⟩
      · rw [hsame] at hfate
        exact ⟨(h.later b hb n hfate).1, (h.later b hb n hfate).2.trans hle⟩
      · rw [hsettled] at hfate
        rw [show f b.value = .prompted n from hfate] at hvalue
        simp at hvalue
  case reason =>
    intro n hlt hn
    by_cases hbefore : n ≤ s.begun
    · rcases h.reason n hlt hbefore with hother | ⟨a, hmem, hfate⟩
      · exact .inl (hunprompted hother)
      · exact .inr (hold a hmem n hfate)
    rcases hbegun with hsame | ⟨hnext, hwhy⟩
    · exact absurd (hsame ▸ hn) hbefore
    -- the update is the one that begins now
    obtain rfl : n = s.started + 1 := by
      have hstartedLe := started_le_begun s
      omega
    rcases hwhy with hother | ⟨value, hpending, hfate⟩
    · exact .inl hother
    · obtain ⟨a, hmem, rfl, hfate'⟩ := (h.entries value).1 hpending
      refine .inr ⟨a.answer f, ?_, ?_⟩
      · rw [harrivals]
        exact List.mem_map_of_mem hmem
      · rw [answer_of_pending hfate']
        exact hfate

theorem finish (h : Inv s) (hphase : s.phase = .updating) : Inv (finish s) := by
  have hbegun : s.begun = s.started := by simp [State.begun, hphase]
  obtain ⟨hcleared, hleft⟩ := consumePendingIpnsArrivals_spec (s.answer s.reaction)
  rw [IpnsArrivals.finish, hcleared]
  refine h.answer rfl rfl (reaction_ne_pending s) ?_ ?_ (Finset.Subset.refl _) ?_ ?_
  · intro value n hpending hn
    rw [State.reaction] at hn
    split at hn
    · cases hn
    · rename_i hnot
      cases hn
      exact ⟨rfl, if_pos (hleft.2 ⟨value, hpending, Bool.eq_false_iff.2 hnot⟩)⟩
  · exact not_pending_clearPending s
  · intro wokenByArrival hparked
    dsimp only at hparked
    split at hparked
    · cases hparked
    · cases hparked
  · by_cases hgo : ∃ value, s.Pending value ∧ s.recorded value = false
    · refine .inr ⟨?_, .inr ?_⟩
      · rw [State.begun, if_pos (if_pos (hleft.2 hgo))]
        rfl
      · obtain ⟨value, hpending, hnot⟩ := hgo
        exact ⟨value, hpending, if_neg (by simp [hnot])⟩
    · refine .inl ?_
      have hparks := mt hleft.1 hgo
      simp only [State.begun, if_neg hparks, hphase]
      rfl

theorem wake (h : Inv s) {wokenByArrival : Bool} (hphase : s.phase = .parked wokenByArrival true) :
    Inv (wake wokenByArrival s) := by
  cases wokenByArrival with
  | true =>
    refine h.answer (f := fun _ => .prompted (s.started + 1)) rfl rfl (by simp) ?_
      (not_pending_clearPending s) (Finset.Subset.refl _) ?_ (.inr ⟨rfl, ?_⟩)
    · intro value n _ hn
      cases hn
      exact ⟨rfl, rfl⟩
    · intro wokenByArrival hparked
      cases hparked
    · rcases h.woken true hphase with hother | ⟨-, value, hpending⟩
      · exact .inl hother
      · exact .inr ⟨value, hpending, rfl⟩
  | false =>
    have hbegun : s.begun = s.started := by simp [State.begun, hphase]
    have hmem : s.started + 1 ∈ s.unprompted := by
      rcases h.woken false hphase with hother | ⟨hfalse, -⟩
      · exact hother
      · cases hfalse
    refine { h with parked := fun hwaiting => (by cases hwaiting),
                    woken := fun _ hphase' => (by cases hphase'),
                    recent := ?_, later := ?_, reason := ?_ }
    · intro a ha hpending
      rcases h.recent a ha hpending with hnow | ⟨-, hupdating⟩
      · exact .inl hnow
      · rw [hphase] at hupdating
        cases hupdating
    · intro a ha n hprompted
      obtain ⟨hlt, hle⟩ := h.later a ha n hprompted
      exact ⟨hlt, hle.trans (hbegun ▸ Nat.le_succ _)⟩
    · intro n hlt hle
      rcases Nat.lt_or_eq_of_le hle with hbefore | rfl
      · exact h.reason n hlt (hbegun ▸ Nat.le_of_lt_succ hbefore)
      · exact .inl hmem

theorem applyKeyMigration (h : Inv s) (newPublicKey : String) :
    Inv (applyKeyMigration newPublicKey s) := by
  rw [IpnsArrivals.applyKeyMigration]
  split
  · rename_i wokenByArrival ended hphase
    have hbegun : s.begun = s.started := by
      have hparked : s.phase = .parked wokenByArrival ended := hphase
      simp [State.begun, hparked]
    refine h.answer (f := fun _ => .migrated) rfl rfl (by simp) (by simp)
      (not_pending_clearPending s) (Finset.subset_insert _ _) ?_ (.inl hbegun.symm)
    exact fun _ _ => Finset.mem_insert_self _ _
  · rename_i hphase
    refine h.answer (f := fun _ => .migrated) rfl rfl (by simp) (by simp)
      (not_pending_clearPending s) (Finset.Subset.refl _) ?_ (.inl rfl)
    intro wokenByArrival hparked
    exact absurd hparked (hphase wokenByArrival true)

theorem step (h : Inv s) {a : Action} (hstep : step s a = some s') : Inv s' := by
  cases a with
  | arrive value => cases hstep; exact h.arrive value
  | load cid => cases hstep; exact { h with }
  | setUpdateCid cid => cases hstep; exact { h with }
  | walk ipnsHops => cases hstep; exact { h with }
  | finish =>
    obtain ⟨hphase, hs⟩ := Option.ite_none_right_eq_some.1 hstep
    cases hs
    exact h.finish hphase
  | timer =>
    simp only [IpnsArrivals.step] at hstep
    split at hstep
    · cases hstep
      rename_i wokenByArrival hphase
      have hbegun : s.begun = s.started := by simp [State.begun, hphase]
      refine { h with parked := fun hwaiting => (by cases hwaiting),
                      woken := fun _ _ => .inl (Finset.mem_insert_self _ _),
                      recent := fun a ha hpending => ?_, later := fun a ha n hprompted => ?_,
                      reason := fun n hlt hle => ?_ }
      · rcases h.recent a ha hpending with hnow | ⟨-, hupdating⟩
        · exact .inl hnow
        · rw [hphase] at hupdating
          cases hupdating
      · rw [← hbegun] at *
        exact h.later a ha n hprompted
      · refine (h.reason n hlt (hbegun ▸ hle)).imp_left fun hmem => Finset.mem_insert_of_mem hmem
    · cases hstep
  | wake =>
    simp only [IpnsArrivals.step] at hstep
    split at hstep
    · cases hstep
      exact h.wake ‹_›
    · cases hstep
  | start =>
    obtain ⟨hphase, hs⟩ := Option.ite_none_right_eq_some.1 hstep
    cases hs
    have hbegun : s.begun = s.started + 1 := by simp [State.begun, hphase]
    refine { h with parked := fun hwaiting => (by cases hwaiting),
                    woken := fun _ hphase' => (by cases hphase'), past := fun a ha => ?_,
                    recent := fun a ha hpending => ?_, later := fun a ha n hprompted => ?_,
                    reason := fun n hlt hle => ?_ }
    · exact (h.past a ha).trans (Nat.le_succ _)
    · rcases h.recent a ha hpending with hnow | ⟨-, hupdating⟩
      · exact .inr ⟨congrArg (· + 1) hnow, rfl⟩
      · rw [hphase] at hupdating
        cases hupdating
    · exact hbegun ▸ h.later a ha n hprompted
    · exact h.reason n hlt (hbegun ▸ hle)
  | applyKeyMigration newPublicKey => cases hstep; exact h.applyKeyMigration newPublicKey

end Inv

end Steps

/-! ## Fair executions -/

section Executions

variable {s s' : State} {a : Action} {i : Nat} {e : Execution step}

/-- It has been settled what becomes of arrival `i`. -/
def Done (i : Nat) (s : State) : Prop :=
  ∃ a, s.arrivals[i]? = some a ∧ a.fate.answered

theorem done_of_step (h : Done i s) (hstep : step s a = some s') : Done i s' := by
  obtain ⟨arrival, hi, hanswered⟩ := h
  refine ⟨arrival, final_of_step hstep hi ?_ ?_, hanswered⟩
  · rintro hfate
    simp [hfate, Fate.answered] at hanswered
  · rintro hfate
    simp [hfate, Fate.answered] at hanswered

theorem awaits_or_done_of_step (h : Awaits i s) (hstep : step s a = some s') :
    Awaits i s' ∨ Done i s' := by
  obtain ⟨arrival, hi, hpending⟩ := h
  obtain ⟨fate, new, hfate, hs⟩ := arrivals_of_step hstep
  obtain ⟨hlt, -⟩ := List.getElem?_eq_some_iff.1 hi
  have hi' : s'.arrivals[i]? = some (arrival.answer fate) := by
    rw [hs, List.getElem?_append_left (by simpa using hlt), List.getElem?_map, hi, Option.map_some]
  rw [answer_of_pending hpending] at hi'
  rcases hfate arrival.value with hstill | hanswered
  · exact .inl ⟨_, hi', hstill⟩
  · exact .inr ⟨_, hi', hanswered⟩

theorem Awaits.done {f : Value → Fate} (h : Awaits i s)
    (hs : s'.arrivals = s.arrivals.map (Arrival.answer f))
    (hanswered : ∀ value, (f value).answered) : Done i s' := by
  obtain ⟨arrival, hi, hfate⟩ := h
  refine ⟨arrival.answer f, ?_, ?_⟩
  · rw [hs, List.getElem?_map, hi, Option.map_some]
  · rw [answer_of_pending hfate]
    exact hanswered _

theorem phase_onIpnsRecordArrival (s : State) (value : Value) :
    (onIpnsRecordArrival value s).phase = s.phase ∨
      (onIpnsRecordArrival value s).phase = s.phase.woken := by
  by_cases hnews : s.isNews value
  · obtain ⟨cids, hopTargets, heq, -⟩ := onIpnsRecordArrival_of_news hnews
    rw [heq]
    exact .inr rfl
  · rw [onIpnsRecordArrival_of_not_news (Bool.eq_false_iff.2 hnews)]
    exact .inl rfl

theorem phase_applyKeyMigration (s : State) (newPublicKey : String) :
    (applyKeyMigration newPublicKey s).phase = s.phase ∨
      ∃ w ended, s.phase = .parked w ended ∧
        (applyKeyMigration newPublicKey s).phase = .parked w true := by
  rw [applyKeyMigration]
  split
  · rename_i w ended hphase
    exact .inr ⟨w, ended, hphase, rfl⟩
  · exact .inl rfl

/-- What a step makes of the phase, if it is not one of the loop's own. -/
theorem phase_of_step (h : step s a = some s') :
    a = .finish ∧ s.phase = .updating ∨
    (a = .wake ∧ ∃ w, s.phase = .parked w true) ∨
    a = .start ∧ s.phase = .returned ∨
    s'.phase = s.phase ∨ ∃ w ended w', s.phase = .parked w ended ∧ s'.phase = .parked w' true := by
  cases a with
  | arrive value =>
    cases h
    refine .inr (.inr (.inr ?_))
    rcases phase_onIpnsRecordArrival s value with hsame | hwoken
    · exact .inl hsame
    · cases hphase : s.phase with
      | parked w ended => exact .inr ⟨w, ended, true, rfl, hwoken.trans (by rw [hphase]; rfl)⟩
      | _ => exact .inl (hwoken.trans (by rw [hphase]; rfl))
  | load cid => cases h; exact .inr (.inr (.inr (.inl rfl)))
  | setUpdateCid cid => cases h; exact .inr (.inr (.inr (.inl rfl)))
  | walk ipnsHops => cases h; exact .inr (.inr (.inr (.inl rfl)))
  | finish => exact .inl ⟨rfl, (Option.ite_none_right_eq_some.1 h).1⟩
  | timer =>
    simp only [step] at h
    split at h
    · rename_i w hphase
      cases h
      exact .inr (.inr (.inr (.inr ⟨w, false, w, hphase, rfl⟩)))
    · cases h
  | wake =>
    simp only [step] at h
    split at h
    · rename_i w hphase
      exact .inr (.inl ⟨rfl, w, hphase⟩)
    · cases h
  | start => exact .inr (.inr (.inl ⟨rfl, (Option.ite_none_right_eq_some.1 h).1⟩))
  | applyKeyMigration newPublicKey =>
    cases h
    refine .inr (.inr (.inr ?_))
    rcases phase_applyKeyMigration s newPublicKey with hsame | ⟨w, ended, hphase, hs⟩
    · exact .inl hsame
    · exact .inr ⟨w, ended, w, hphase, hs⟩

theorem followed_of_done (h : Inv s) (hdone : Done i s) (hphase : s.phase ≠ .returned) :
    Followed i s := by
  obtain ⟨arrival, hi, hanswered⟩ := hdone
  refine ⟨arrival, hi, ?_⟩
  cases hfate : arrival.fate with
  | ignored => simp [hfate, Fate.answered] at hanswered
  | overlooked => simp [hfate, Fate.answered] at hanswered
  | pending => simp [hfate, Fate.answered] at hanswered
  | consumed => exact .inl rfl
  | migrated => exact .inr (.inl rfl)
  | prompted n =>
    obtain ⟨hlt, hle⟩ := h.later arrival (List.mem_of_getElem? hi) n hfate
    rw [State.begun, if_neg hphase, Nat.add_zero] at hle
    exact .inr (.inr ⟨n, rfl, hlt, hle⟩)

theorem updating_stays (hphase : s.phase = .updating) (hne : a ≠ .finish)
    (h : step s a = some s') : s'.phase = .updating := by
  rcases phase_of_step h with ⟨rfl, -⟩ | ⟨-, w, hw⟩ | ⟨-, hreturned⟩ | hsame | ⟨w, ended, -, hw, -⟩
  · exact absurd rfl hne
  · cases hphase.symm.trans hw
  · cases hphase.symm.trans hreturned
  · exact hsame.trans hphase
  · cases hphase.symm.trans hw

theorem returned_stays (hphase : s.phase = .returned) (hne : a ≠ .start)
    (h : step s a = some s') : s'.phase = .returned := by
  rcases phase_of_step h with ⟨-, hupdating⟩ | ⟨-, w, hw⟩ | ⟨rfl, -⟩ | hsame | ⟨w, ended, -, hw, -⟩
  · cases hphase.symm.trans hupdating
  · cases hphase.symm.trans hw
  · exact absurd rfl hne
  · exact hsame.trans hphase
  · cases hphase.symm.trans hw

theorem ended_stays (hphase : ∃ w, s.phase = .parked w true) (hne : a ≠ .wake)
    (h : step s a = some s') : ∃ w, s'.phase = .parked w true := by
  obtain ⟨w, hw⟩ := hphase
  rcases phase_of_step h with
    ⟨-, hupdating⟩ | ⟨rfl, -⟩ | ⟨-, hreturned⟩ | hsame | ⟨-, -, w', -, hw'⟩
  · cases hw.symm.trans hupdating
  · exact absurd rfl hne
  · cases hw.symm.trans hreturned
  · exact ⟨w, hsame.trans hw⟩
  · exact ⟨w', hw'⟩

/-- A step of the loop that an arrival waits for. -/
theorem leadsTo_own {possible Q : State → Prop} {own : Action}
    (hfair : Fair e possible (· = own))
    (hstays : ∀ s a s', possible s → a ≠ own → step s a = some s' → possible s')
    (htaken : ∀ s s', Awaits i s → possible s → step s own = some s' → Done i s' ∨ Q s') :
    LeadsTo e (fun s => Awaits i s ∧ possible s) (fun s => Done i s ∨ Q s) := by
  refine leadsTo_of_fair hfair ?_ (fun s h => h.2) ?_
  · rintro s a s' ⟨hawaits, hs⟩ hstep
    by_cases hown : a = own
    · subst hown
      exact .inr (htaken s s' hawaits hs hstep)
    · rcases awaits_or_done_of_step hawaits hstep with hawaits' | hdone
      · exact .inl ⟨hawaits', hstays s a s' hs hown hstep⟩
      · exact .inr (.inl hdone)
  · rintro s a s' ⟨hawaits, hs⟩ rfl hstep
    exact htaken s s' hawaits hs hstep

theorem leadsTo_done_of_updating (hfair : FairLoop e) (i : Nat) :
    LeadsTo e (fun s => Awaits i s ∧ s.phase = .updating) (Done i) := by
  have hleads : LeadsTo e (fun s => Awaits i s ∧ s.phase = .updating)
      (fun s => Done i s ∨ False) := by
    refine leadsTo_own hfair.finishes (fun s a s' hs hne h => updating_stays hs hne h) ?_
    intro s s' hawaits _ hstep
    obtain ⟨-, hs⟩ := Option.ite_none_right_eq_some.1 hstep
    cases hs
    exact .inl (hawaits.done (arrivals_finish s) (answered_reaction s))
  intro n hn
  obtain ⟨m, hle, hm⟩ := hleads n hn
  exact ⟨m, hle, hm.resolve_right id⟩

theorem leadsTo_done_of_returned (hfair : FairLoop e) (i : Nat) :
    LeadsTo e (fun s => Awaits i s ∧ s.phase = .returned) (Done i) := by
  have hleads : LeadsTo e (fun s => Awaits i s ∧ s.phase = .returned)
      (fun s => Done i s ∨ Awaits i s ∧ s.phase = .updating) := by
    refine leadsTo_own hfair.starts (fun s a s' hs hne h => returned_stays hs hne h) ?_
    intro s s' hawaits _ hstep
    obtain ⟨-, hs⟩ := Option.ite_none_right_eq_some.1 hstep
    cases hs
    exact .inr ⟨hawaits, rfl⟩
  intro n hn
  obtain ⟨m, hle, hdone | hupdating⟩ := hleads n hn
  · exact ⟨m, hle, hdone⟩
  · obtain ⟨k, hle', hk⟩ := leadsTo_done_of_updating hfair i m hupdating
    exact ⟨k, hle.trans hle', hk⟩

theorem leadsTo_done_of_ended (hfair : FairLoop e) (i : Nat) :
    LeadsTo e (fun s => Awaits i s ∧ ∃ w, s.phase = .parked w true) (Done i) := by
  have hleads : LeadsTo e (fun s => Awaits i s ∧ ∃ w, s.phase = .parked w true)
      (fun s => Done i s ∨ Awaits i s ∧ s.phase = .returned) := by
    refine leadsTo_own hfair.wakes (fun s a s' hs hne h => ended_stays hs hne h) ?_
    rintro s s' hawaits ⟨w, hw⟩ hstep
    simp only [step, hw, Option.some.injEq] at hstep
    subst hstep
    cases w with
    | true =>
      exact .inl (hawaits.done (f := fun _ => .prompted (s.started + 1)) rfl fun _ => rfl)
    | false => exact .inr ⟨hawaits, rfl⟩
  intro n hn
  obtain ⟨m, hle, hdone | hreturned⟩ := hleads n hn
  · exact ⟨m, hle, hdone⟩
  · obtain ⟨k, hle', hk⟩ := leadsTo_done_of_returned hfair i m hreturned
    exact ⟨k, hle.trans hle', hk⟩

/-- An arrival is not pending for ever. -/
theorem leadsTo_done (hfair : FairLoop e) (hinv : ∀ n, Inv (e.state n)) (i : Nat) :
    LeadsTo e (Awaits i) (Done i) := by
  intro n hawaits
  obtain ⟨arrival, hi, hpending⟩ := hawaits
  have hwaiting := (hinv n).sound.awake arrival (List.mem_of_getElem? hi) hpending
  cases hphase : (e.state n).phase with
  | updating => exact leadsTo_done_of_updating hfair i n ⟨⟨arrival, hi, hpending⟩, hphase⟩
  | returned => exact leadsTo_done_of_returned hfair i n ⟨⟨arrival, hi, hpending⟩, hphase⟩
  | parked w ended =>
    cases ended with
    | true => exact leadsTo_done_of_ended hfair i n ⟨⟨arrival, hi, hpending⟩, w, hphase⟩
    | false =>
      rw [State.waiting, hphase] at hwaiting
      cases hwaiting

/-- An update that is the reaction starts. -/
theorem leadsTo_followed (hfair : FairLoop e) (hinv : ∀ n, Inv (e.state n)) (i : Nat) :
    LeadsTo e (Done i) (Followed i) := by
  have hleads : LeadsTo e (fun s => (Inv s ∧ Done i s) ∧ s.phase = .returned) (Followed i) := by
    have hstarted : ∀ s s', Inv s → Done i s → step s .start = some s' → Followed i s' := by
      intro s s' h hdone hstep
      refine followed_of_done (h.step hstep) (done_of_step hdone hstep) ?_
      obtain ⟨-, hs⟩ := Option.ite_none_right_eq_some.1 hstep
      cases hs
      simp
    refine leadsTo_of_fair hfair.starts ?_ (fun s h => h.2) ?_
    · rintro s a s' ⟨⟨h, hdone⟩, hphase⟩ hstep
      by_cases hown : a = .start
      · subst hown
        exact .inr (hstarted s s' h hdone hstep)
      · exact .inl ⟨⟨h.step hstep, done_of_step hdone hstep⟩, returned_stays hphase hown hstep⟩
    · rintro s a s' ⟨⟨h, hdone⟩, -⟩ rfl hstep
      exact hstarted s s' h hdone hstep
  intro n hdone
  by_cases hphase : (e.state n).phase = .returned
  · exact hleads n ⟨⟨hinv n, hdone⟩, hphase⟩
  · exact ⟨n, Nat.le_refl n, followed_of_done (hinv n) hdone hphase⟩

end Executions

/-- **What arrives prompts an update.**  Whatever arrives and however the loop, its timer and key
migrations take turns, the loop does not wait for its timer while it has something to react to,
every update but the first has a reason of its own, and what has become of an arrival is final.
Where updates end and the loop goes on, an update starts after every arrival that is news, unless
the update before has consumed it or a key migration has dropped it, also if the timer never
fires.  Nothing is said of an arrival that was overlooked. -/
theorem arrivals_prompt_updates (updateCidsAlreadyLoaded : List String) (updateCid : Option String)
    (ipnsHops : Option (List String)) :
    (∀ as s, Run step anyStep (init updateCidsAlreadyLoaded updateCid ipnsHops) as s → Sound s) ∧
    (∀ (s : State) as s', Run step anyStep s as s' → ∀ (i : Nat) (a : Arrival),
      s.arrivals[i]? = some a → a.fate ≠ .pending → a.fate ≠ .overlooked →
        s'.arrivals[i]? = some a) ∧
    ∀ e : Execution step, e.state 0 = init updateCidsAlreadyLoaded updateCid ipnsHops →
      FairLoop e → ∀ i, LeadsTo e (Awaits i) (Followed i) := by
  refine ⟨fun as s hrun => ?_, fun s as s' hrun i a hi hpending hoverlooked => ?_,
    fun e hzero hfair i => ?_⟩
  · exact hrun.invariant_of (I := Inv) (fun s h => h.sound)
      (fun s a s' h _ hstep => h.step hstep) (.init _ _ _)
  · exact hrun.invariant (I := fun s => s.arrivals[i]? = some a)
      (fun s _ s' h _ hstep => final_of_step hstep h hpending hoverlooked) hi
  · have hinv : ∀ n, Inv (e.state n) := fun n =>
      Execution.stable (I := Inv) (fun s a s' h hstep => h.step hstep)
        (hzero ▸ .init _ _ _) (Nat.zero_le n)
    exact (leadsTo_done hfair hinv i).trans (leadsTo_followed hfair hinv i)

/-! ## A push during an update, and a key migration -/

/-- The record is pushed while the first update fetches the one before. -/
def pushed : List Action :=
  [.start, .arrive (.ipfs "QmSecond"), .load "QmFirst", .setUpdateCid "QmFirst", .finish, .start,
    .load "QmSecond", .setUpdateCid "QmSecond", .finish]

theorem arrivals_prompt_updates_of_push :
    (∃ s, Run step anyStep (init [] none none) pushed s ∧
      s.arrivals = [⟨.ipfs "QmSecond", 1, .prompted 2⟩] ∧ s.started = 2 ∧ Sound s) ∧
    ∃ e : Execution step, e.state 0 = init [] none none ∧ FairLoop e ∧
      LeadsTo e (Awaits 0) (Followed 0) := by
  obtain ⟨hsound, -, hleads⟩ := arrivals_prompt_updates [] none none
  have hrun : ∃ s, Run step anyStep (init [] none none) pushed s ∧
      s.arrivals = [⟨.ipfs "QmSecond", 1, .prompted 2⟩] ∧ s.started = 2 ∧
      s.phase = .parked false false := by
    refine ⟨_, Run.of_exec rfl, ?_, ?_, ?_⟩
    · rfl
    · rfl
    · rfl
  obtain ⟨s, hrun, harrivals, hstarted, hphase⟩ := hrun
  obtain ⟨e, hzero, hend⟩ := Execution.of_run hrun
  have hfair : FairLoop e := by
    refine ⟨.of_end hend ?_, .of_end hend ?_, .of_end hend ?_⟩
    · simp [hphase]
    · simp [hphase]
    · simp [hphase]
  exact ⟨⟨s, hrun, harrivals, hstarted, hsound _ s hrun⟩, e, hzero, hfair, hleads e hzero hfair 0⟩

/-- **An arrival that is dropped.**  It is not on record when the update ends, but the key has
changed in the meantime, and the loop waits for its timer. -/
theorem not_prompted_of_key_migration : ∃ s, Run step anyStep (init [] none none)
    [.start, .arrive (.ipfs "QmOld"), .applyKeyMigration "12D3KooWNew", .finish] s ∧
      s.arrivals = [⟨.ipfs "QmOld", 1, .migrated⟩] ∧ s.recorded (.ipfs "QmOld") = false ∧
      s.started = 1 ∧ s.waiting ∧ ∀ value, ¬ s.Pending value := by
  refine ⟨_, Run.of_exec rfl, ?_, ?_, ?_, ?_, ?_⟩
  · rfl
  · rfl
  · rfl
  · rfl
  · exact not_pending_clearPending (init [] none none)

end IpnsArrivals
end Pkc

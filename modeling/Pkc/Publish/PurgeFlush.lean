import Pkc.Publish.StaleCids

/-!
# Purges and the unpin queue

What was published before a purge has the purged comment in it, so a purge takes the grace period
from the whole unpin queue.  The record of a cycle that is under way when the purge lands is queued
by the next cycle only; the purge stays pending until a pass has emptied the queue in a cycle that
started after it.

* `PurgeFlush.State` is a community with the purges that no such pass has flushed, and with the
  times at which its passes have seen a cid.
* `Flushed` says what is wanted: a purge that is not flushed is pending, it is disarmed by such a
  pass only, such a pass leaves nothing, and without a purge a cid keeps its grace period.
* `flushed_of_run`: it holds of the runs in which no purge lands during a pass that may disarm
  another, with nothing to queue but what that pass is about to unpin.
* `not_flushed`: such a purge, of a comment that is purged twice.

A pass reads for which purge it flushes when it starts, and disarms whatever is pending at its end.
-/

set_option autoImplicit false

namespace Pkc
namespace PurgeFlush

open Runs StaleCids

/-! ## Purges that are not flushed -/

structure State where
  community : StaleCids.State
  /-- The time that was read last. -/
  nowMs : Nat
  /-- When the purges landed that no pass has flushed. -/
  unflushed : List Nat
  /-- An unpin of the running pass has failed. -/
  failed : Bool
  /-- The passes that have seen a cid in the queue since it was unpinned last. -/
  seen : List (Cid × Nat)
deriving DecidableEq

/-- The time that an action reads. -/
def timeOf : Action → Option Nat
  | .buildRecord _ now => some now
  | .publishRecord now => some now
  | .purge _ _ now => some now
  | .stop now => some now
  | _ => none

namespace State

def unflushedAfter (s : State) : Action → List Nat
  | .purge _ true now => s.unflushed ++ [now]
  | .passEnds _ | .failsAfterPublish =>
    match s.community.phase with
    | .unpinning _ (.publish _ cycleStartedAtMs) _ =>
      if s.failed then s.unflushed else s.unflushed.filter fun landed => ¬ landed < cycleStartedAtMs
    | _ => s.unflushed
  | _ => s.unflushed

def failedAfter (s : State) : Action → Bool
  | .publishRecord _ | .stop _ => false
  | .pinRmFails cid =>
    match s.community.phase with
    | .unpinning cids _ _ => s.failed || cids.contains cid
    | _ => s.failed
  | _ => s.failed

def seenAfter (s : State) (community : StaleCids.State) : Action → List (Cid × Nat)
  | .publishRecord now | .stop now => s.seen ++ community.cidsToUnPin.map fun cid => (cid, now)
  | .pinRm cid => s.seen.filter fun sighting => sighting.1 ≠ cid
  | _ => s.seen

/-- A step of the community.  The clock does not go back. -/
def step (s : State) (a : Action) : Option State :=
  if (timeOf a).all (fun now => s.nowMs ≤ now) = true then
    (StaleCids.step s.community a).map fun community =>
      { community := community
        nowMs := (timeOf a).getD s.nowMs
        unflushed := s.unflushedAfter a
        failed := s.failedAfter a
        seen := s.seenAfter community a }
  else none

end State

/-- A community that nothing was purged from yet. -/
def Fresh (s : State) : Prop :=
  s.community.phase = .idle ∧ s.community.firstSeenAtMs = [] ∧ s.unflushed = [] ∧ s.seen = []

/-! ## Purges that wait for their pass -/

def cycleStartedAtMs : Pass → Option Nat
  | .publish _ startedAtMs => some startedAtMs
  | .stop => none

/-- The pass does not end. -/
def InPass (_ : State) : Action → Prop
  | .passEnds _ | .failsAfterPublish => False
  | _ => True

/-- No purge is forgotten, and none cuts the grace period short without need. -/
structure Flushed (s : State) : Prop where
  /-- A purge that is not flushed is pending. -/
  pending : ∀ landed ∈ s.unflushed, ∃ armedAtMs,
    s.community.purgeFlushArmedAtMs = some armedAtMs ∧ landed ≤ armedAtMs
  /-- It is disarmed by a pass that has unpinned all that was queued, in a cycle that started
  later. -/
  disarmed : ∀ a s' armedAtMs, s.step a = some s' →
    s.community.purgeFlushArmedAtMs = some armedAtMs → s'.community.purgeFlushArmedAtMs = none →
      (∃ sameInstance, a = .start sameInstance) ∨
      s'.unflushed = [] ∧ s.failed = false ∧ s.community.cidsToUnPin = [] ∧
        ∃ pass flush startedAtMs, s.community.phase = .unpinning [] pass flush ∧
          cycleStartedAtMs pass = some startedAtMs ∧ armedAtMs < startedAtMs
  /-- What is queued stays queued until it is unpinned. -/
  queued : ∀ a s' c es t, s.step a = some s' → c ∈ queuedBy s.community a →
    Run State.step anyStep s' es t → c ∈ t.community.cidsToUnPin ∨ .pinRm c ∈ es
  /-- A pass that starts while a purge is not flushed, and of which nothing fails, leaves
  nothing. -/
  complete : ∀ now s' es t pass flush, s.unflushed ≠ [] → s.step (.publishRecord now) = some s' →
    Run State.step InPass s' es t → t.community.phase = .unpinning [] pass flush → t.failed = false →
      ∀ c ∈ s'.community.cidsToUnPin, .pinRm c ∈ es
  /-- Unless a purge is pending or the community stops, a cid was seen long enough before it is
  unpinned. -/
  grace : ∀ c s', s.step (.pinRm c) = some s' →
    ∃ cids pass flush, s.community.phase = .unpinning cids pass flush ∧
      (pass = .stop ∨ flush.flushGraceForPendingPurge = true ∨
        ∃ firstSeenAtMs, (c, firstSeenAtMs) ∈ s.seen ∧
          firstSeenAtMs + StaleCids.State.unpinGracePeriodMs ≤ s.nowMs)

/-! ## The condition -/

/-- The pass disarms what is pending if it leaves the queue empty. -/
def MayDisarm (pass : Pass) (flush : Flush) : Prop :=
  flush.flushGraceForPendingPurge = true ∧
    flush.purgeFlushArmedAtMs.all (fun armedAtMs =>
      (cycleStartedAtMs pass).any fun startedAtMs => armedAtMs < startedAtMs) = true

/-- The community is not taken up by another instance. -/
def OneInstance (_ : State) : Action → Prop
  | .start sameInstance => sameInstance = true
  | _ => True

instance (s : State) : ∀ a, Decidable (OneInstance s a)
  | .start sameInstance => inferInstanceAs (Decidable (sameInstance = true))
  | .startCycle | .calculateSlice _ | .upsertSlice | .buildRecord _ _ | .noReasonToUpdate
  | .publishRecord _ | .pinRm _ | .pinRmFails _ | .passEnds _ | .failsAfterPublish | .cycleFails
  | .storeComment _ | .rejectComment _ | .purge _ _ _ | .queueModQueuePages _ | .stop _ =>
    .isTrue trivial

/-- A purge that lands during such a pass queues something that the pass does not unpin. -/
def Apart (s : State) : Action → Prop
  | .purge cids true _ => ∀ pending pass flush, s.community.phase = .unpinning pending pass flush →
      MayDisarm pass flush → ∃ c ∈ s.community.purgedCids cids, c ∉ pending
  | a => OneInstance s a

/-! ## What a step does -/

def NotUnpinning (c : StaleCids.State) : Prop :=
  ∀ cids pass flush, c.phase ≠ .unpinning cids pass flush

/-- Actions that are no part of a pass, and no purge. -/
def Quiet : Action → Prop
  | .publishRecord _ | .stop _ | .pinRm _ | .pinRmFails _ | .passEnds _ | .failsAfterPublish => False
  | .purge _ queues _ => queues = false
  | .start sameInstance => sameInstance = true
  | _ => True

section Steps

variable {c c' : StaleCids.State} {s s' : State} {a : Action} {cid : Cid}

theorem mem_queue_left {cids : List Cid} (h : cid ∈ c.cidsToUnPin) :
    cid ∈ (c.queue cids).cidsToUnPin :=
  List.mem_append_left _ h

theorem mem_queue_right {cids : List Cid} (h : cid ∈ cids) : cid ∈ (c.queue cids).cidsToUnPin := by
  rw [StaleCids.State.queue]
  by_cases hold : cid ∈ c.cidsToUnPin
  · exact List.mem_append_left _ hold
  · exact List.mem_append_right _ (List.mem_filter.2 ⟨h, by simpa using hold⟩)

/-- What a quiet action leaves. -/
structure Kept (c c' : StaleCids.State) : Prop where
  armed : c'.purgeFlushArmedAtMs = c.purgeFlushArmedAtMs
  seen : c'.firstSeenAtMs = c.firstSeenAtMs
  queue : ∀ cid ∈ c.cidsToUnPin, cid ∈ c'.cidsToUnPin
  phase : c'.phase = c.phase ∨ NotUnpinning c ∧ NotUnpinning c'

theorem notUnpinning_of_phase {phase : Phase} (h : c.phase = phase)
    (hnot : ∀ cids pass flush, phase ≠ .unpinning cids pass flush) : NotUnpinning c := by
  intro cids pass flush
  rw [h]
  exact hnot cids pass flush

theorem kept_of_quiet (hquiet : Quiet a) (h : StaleCids.step c a = some c') : Kept c c' := by
  cases a with
  | publishRecord now => exact hquiet.elim
  | stop now => exact hquiet.elim
  | pinRm cid => exact hquiet.elim
  | pinRmFails cid => exact hquiet.elim
  | passEnds removed => exact hquiet.elim
  | failsAfterPublish => exact hquiet.elim
  | startCycle =>
    rw [StaleCids.step] at h
    split at h <;> cases h
    rename_i hphase
    exact ⟨rfl, rfl, fun _ h => h, .inr ⟨notUnpinning_of_phase hphase (by simp), (by rintro _ _ _ ⟨⟩)⟩⟩
  | calculateSlice rows =>
    rw [StaleCids.step] at h
    split at h <;> cases h
    rename_i hphase
    exact ⟨rfl, rfl, fun _ h => mem_queue_left h,
      .inr ⟨notUnpinning_of_phase hphase (by simp), (by rintro _ _ _ ⟨⟩)⟩⟩
  | upsertSlice =>
    rw [StaleCids.step] at h
    split at h
    · rename_i hphase
      split at h <;> cases h
      exact ⟨rfl, rfl, fun _ h => h,
        .inr ⟨notUnpinning_of_phase hphase (by simp), (by rintro _ _ _ ⟨⟩)⟩⟩
    · cases h
  | buildRecord record now =>
    rw [StaleCids.step] at h
    split at h <;> cases h
    rename_i hphase
    exact ⟨rfl, rfl, fun _ h => mem_queue_left h,
      .inr ⟨notUnpinning_of_phase hphase (by simp), (by rintro _ _ _ ⟨⟩)⟩⟩
  | noReasonToUpdate =>
    rw [StaleCids.step] at h
    split at h <;> cases h
    rename_i hphase
    exact ⟨rfl, rfl, fun _ h => h, .inr ⟨notUnpinning_of_phase hphase (by simp), (by rintro _ _ _ ⟨⟩)⟩⟩
  | cycleFails =>
    rw [StaleCids.step] at h
    split at h <;> cases h
    all_goals
      rename_i hphase
      exact ⟨rfl, rfl, fun _ h => h,
        .inr ⟨notUnpinning_of_phase hphase (by simp), (by rintro _ _ _ ⟨⟩)⟩⟩
  | storeComment cid =>
    cases h
    exact ⟨rfl, rfl, fun _ h => h, .inl rfl⟩
  | rejectComment cid =>
    cases h
    exact ⟨rfl, rfl, fun _ h => mem_queue_left h, .inl rfl⟩
  | purge cids queues now =>
    obtain rfl : queues = false := hquiet
    cases h
    exact ⟨rfl, rfl, fun _ h => h, .inl rfl⟩
  | queueModQueuePages cids =>
    cases h
    exact ⟨rfl, rfl, fun _ h => mem_queue_left h, .inl rfl⟩
  | start sameInstance =>
    obtain rfl : sameInstance = true := hquiet
    rw [StaleCids.step] at h
    split at h <;> cases h
    rename_i hphase
    exact ⟨rfl, rfl, fun _ h => h, .inr ⟨notUnpinning_of_phase hphase (by simp), (by rintro _ _ _ ⟨⟩)⟩⟩

theorem pinRm_eq_some (h : StaleCids.step c (.pinRm cid) = some c') :
    ∃ pending pass flush, c.phase = .unpinning pending pass flush ∧ cid ∈ pending ∧
      c' = { c with
        cidsToUnPin := c.cidsToUnPin.filter fun queued => queued ≠ cid
        firstSeenAtMs := c.firstSeenAtMs.filter fun seen => seen.1 ≠ cid
        phase := .unpinning (pending.filter fun queued => queued ≠ cid) pass flush } := by
  rw [StaleCids.step] at h
  split at h
  · rename_i pending pass flush hphase
    split at h <;> cases h
    rename_i hmem
    exact ⟨pending, pass, flush, hphase, hmem, rfl⟩
  · cases h

theorem pinRmFails_eq_some (h : StaleCids.step c (.pinRmFails cid) = some c') :
    ∃ pending pass flush, c.phase = .unpinning pending pass flush ∧
      c' = { c with phase := .unpinning (pending.filter fun queued => queued ≠ cid) pass flush } := by
  rw [StaleCids.step] at h
  split at h <;> cases h
  rename_i pending pass flush hphase
  exact ⟨pending, pass, flush, hphase, rfl⟩

/-- A pass starts with the publish of a record or with a stop. -/
theorem startPass_eq_some {now : Nat} (ha : a = .publishRecord now ∨ a = .stop now)
    (h : StaleCids.step c a = some c') :
    ∃ (c₁ : StaleCids.State) (bypass : Bool) (pass : Pass),
      c' = c₁.startPass now bypass pass ∧ c₁.purgeFlushArmedAtMs = c.purgeFlushArmedAtMs ∧
      c₁.firstSeenAtMs = c.firstSeenAtMs ∧ c₁.blocksToRm = c.blocksToRm ∧
      (∀ cid ∈ c.cidsToUnPin, cid ∈ c₁.cidsToUnPin) ∧ (bypass = true → pass = .stop) ∧
      (∀ cid ∈ queuedBy c a, cid ∈ c₁.cidsToUnPin) := by
  rcases ha with rfl | rfl
  · rw [StaleCids.step] at h
    split at h <;> cases h
    rename_i record startedAtMs hphase
    refine ⟨_, _, _, rfl, rfl, rfl, rfl, fun _ h => mem_queue_left h, (by simp), fun cid hcid => ?_⟩
    rw [queuedBy, hphase] at hcid
    exact mem_queue_right hcid
  · rw [StaleCids.step] at h
    split at h <;> cases h
    exact ⟨_, _, _, rfl, rfl, rfl, rfl, fun _ h => h, fun _ => rfl, fun cid hcid =>
      absurd hcid List.not_mem_nil⟩

/-- A pass ends with `disarm`. -/
theorem passEnds_eq_some (ha : (∃ removed, a = .passEnds removed) ∨ a = .failsAfterPublish)
    (h : StaleCids.step c a = some c') : ∃ pass flush, c.phase = .unpinning [] pass flush ∧
      c'.purgeFlushArmedAtMs = (c.disarm flush (cycleStartedAtMs pass)).purgeFlushArmedAtMs ∧
      c'.firstSeenAtMs = c.firstSeenAtMs ∧ c'.cidsToUnPin = c.cidsToUnPin ∧ NotUnpinning c' := by
  have hdisarm : ∀ flush startedAtMs, (c.disarm flush startedAtMs).firstSeenAtMs = c.firstSeenAtMs ∧
      (c.disarm flush startedAtMs).cidsToUnPin = c.cidsToUnPin := by
    intro flush startedAtMs
    rw [StaleCids.State.disarm]
    split <;> exact ⟨rfl, rfl⟩
  rcases ha with ⟨removed, rfl⟩ | rfl
  · rw [StaleCids.step] at h
    split at h <;> cases h
    all_goals
      rename_i hphase
      exact ⟨_, _, hphase, rfl, (hdisarm _ _).1, (hdisarm _ _).2, (by rintro _ _ _ ⟨⟩)⟩
  · rw [StaleCids.step] at h
    split at h <;> cases h
    rename_i hphase
    exact ⟨_, _, hphase, rfl, (hdisarm _ _).1, (hdisarm _ _).2, (by rintro _ _ _ ⟨⟩)⟩

theorem step_eq_some (h : s.step a = some s') :
    (∀ now, timeOf a = some now → s.nowMs ≤ now) ∧
      StaleCids.step s.community a = some s'.community ∧
      s'.nowMs = (timeOf a).getD s.nowMs ∧ s'.unflushed = s.unflushedAfter a ∧
      s'.failed = s.failedAfter a ∧ s'.seen = s.seenAfter s'.community a := by
  rw [State.step] at h
  split at h
  · rename_i htime
    obtain ⟨community, hcommunity, rfl⟩ := Option.map_eq_some_iff.1 h
    refine ⟨fun now hnow => ?_, hcommunity, rfl, rfl, rfl, rfl⟩
    rw [hnow] at htime
    simpa using htime
  · cases h

theorem ghost_of_quiet (s s' : State) (hquiet : Quiet a) : s.unflushedAfter a = s.unflushed ∧
    s.failedAfter a = s.failed ∧ s.seenAfter s'.community a = s.seen := by
  cases a with
  | purge cids queues now =>
    obtain rfl : queues = false := hquiet
    exact ⟨rfl, rfl, rfl⟩
  | publishRecord now => exact hquiet.elim
  | stop now => exact hquiet.elim
  | pinRm cid => exact hquiet.elim
  | pinRmFails cid => exact hquiet.elim
  | passEnds removed => exact hquiet.elim
  | failsAfterPublish => exact hquiet.elim
  | _ => exact ⟨rfl, rfl, rfl⟩

theorem nowMs_le (h : s.step a = some s') : s.nowMs ≤ s'.nowMs := by
  obtain ⟨htime, -, hnow, -⟩ := step_eq_some h
  rw [hnow]
  cases hread : timeOf a with
  | none => exact Nat.le_refl _
  | some now => exact htime now hread

end Steps

/-! ## The invariant -/

structure Ok (s : State) : Prop where
  armed : ∀ landed ∈ s.unflushed, ∃ armedAtMs,
    s.community.purgeFlushArmedAtMs = some armedAtMs ∧ landed ≤ armedAtMs
  clock : ∀ landed ∈ s.unflushed, landed ≤ s.nowMs
  seen : ∀ sighting ∈ s.community.firstSeenAtMs, sighting ∈ s.seen
  queued : ∀ pending pass flush, s.community.phase = .unpinning pending pass flush →
    ∀ cid ∈ pending, cid ∈ s.community.cidsToUnPin
  /-- A pass that may disarm has read what is pending, or leaves something in the queue. -/
  pass : ∀ pending pass flush, s.community.phase = .unpinning pending pass flush →
    MayDisarm pass flush → (∃ cid ∈ s.community.cidsToUnPin, cid ∉ pending) ∨
      s.community.purgeFlushArmedAtMs = flush.purgeFlushArmedAtMs ∧ s.failed = false
  grace : ∀ pending pass flush, s.community.phase = .unpinning pending pass flush →
    ∀ cid ∈ pending, pass = .stop ∨ flush.flushGraceForPendingPurge = true ∨
      ∃ firstSeenAtMs, (cid, firstSeenAtMs) ∈ s.seen ∧
        firstSeenAtMs + StaleCids.State.unpinGracePeriodMs ≤ s.nowMs

section Invariant

variable {s s' : State} {a : Action} {cid : Cid}

theorem Ok.of_notUnpinning (h : NotUnpinning s.community)
    (harmed : ∀ landed ∈ s.unflushed, ∃ armedAtMs,
      s.community.purgeFlushArmedAtMs = some armedAtMs ∧ landed ≤ armedAtMs)
    (hclock : ∀ landed ∈ s.unflushed, landed ≤ s.nowMs)
    (hseen : ∀ sighting ∈ s.community.firstSeenAtMs, sighting ∈ s.seen) : Ok s :=
  ⟨harmed, hclock, hseen, fun _ _ _ hphase => (h _ _ _ hphase).elim,
    fun _ _ _ hphase => (h _ _ _ hphase).elim, fun _ _ _ hphase => (h _ _ _ hphase).elim⟩

theorem Ok.quiet (hs : Ok s) (hquiet : Quiet a) (h : s.step a = some s') : Ok s' := by
  obtain ⟨-, hcommunity, -, hunflushed, hfailed, hseen⟩ := step_eq_some h
  have hkept := kept_of_quiet hquiet hcommunity
  have hnow := nowMs_le h
  obtain ⟨hunflushedAfter, hfailedAfter, hseenAfter⟩ := ghost_of_quiet s s' hquiet
  rw [hunflushedAfter] at hunflushed
  rw [hfailedAfter] at hfailed
  rw [hseenAfter] at hseen
  have harmed' : ∀ landed ∈ s'.unflushed, ∃ armedAtMs,
      s'.community.purgeFlushArmedAtMs = some armedAtMs ∧ landed ≤ armedAtMs := by
    rw [hunflushed, hkept.armed]
    exact hs.armed
  have hclock' : ∀ landed ∈ s'.unflushed, landed ≤ s'.nowMs := by
    rw [hunflushed]
    exact fun landed hlanded => Nat.le_trans (hs.clock landed hlanded) hnow
  have hseen' : ∀ sighting ∈ s'.community.firstSeenAtMs, sighting ∈ s'.seen := by
    rw [hkept.seen, hseen]
    exact hs.seen
  rcases hkept.phase with hphase | ⟨-, hnot⟩
  · refine ⟨harmed', hclock', hseen', fun pending pass flush hpass cid hcid => ?_,
      fun pending pass flush hpass hmay => ?_, fun pending pass flush hpass cid hcid => ?_⟩
    · exact hkept.queue cid (hs.queued pending pass flush (hphase ▸ hpass) cid hcid)
    · rw [hkept.armed, hfailed]
      refine (hs.pass pending pass flush (hphase ▸ hpass) hmay).imp_left ?_
      rintro ⟨cid, hcid, hnot⟩
      exact ⟨cid, hkept.queue cid hcid, hnot⟩
    · rw [hseen]
      refine (hs.grace pending pass flush (hphase ▸ hpass) cid hcid).imp_right (Or.imp_right ?_)
      rintro ⟨firstSeenAtMs, hmem, hle⟩
      exact ⟨firstSeenAtMs, hmem, Nat.le_trans hle hnow⟩
  · exact .of_notUnpinning hnot harmed' hclock' hseen'

theorem Ok.purge (hs : Ok s) {cids : List Cid} {now : Nat} (hok : Apart s (.purge cids true now))
    (h : s.step (.purge cids true now) = some s') : Ok s' := by
  obtain ⟨htime, hcommunity, hnow', hunflushed, hfailed, hseen⟩ := step_eq_some h
  have hnow : s'.nowMs = now := hnow'
  have hle : s.nowMs ≤ now := htime now rfl
  obtain hcommunity := Option.some.inj hcommunity
  have hqueue : ∀ cid ∈ s.community.cidsToUnPin, cid ∈ s'.community.cidsToUnPin := by
    rw [← hcommunity]
    exact fun cid hcid => List.mem_append_left _ hcid
  have hphase : s'.community.phase = s.community.phase := by
    rw [← hcommunity]
    rfl
  refine ⟨?_, ?_, ?_, fun pending pass flush hpass cid hcid => ?_,
    fun pending pass flush hpass hmay => ?_, fun pending pass flush hpass cid hcid => ?_⟩
  · rw [hunflushed, ← hcommunity]
    intro landed hlanded
    refine ⟨now, rfl, ?_⟩
    rcases List.mem_append.1 hlanded with hold | hlast
    · exact Nat.le_trans (hs.clock landed hold) hle
    · exact Nat.le_of_eq (List.mem_singleton.1 hlast)
  · rw [hunflushed, hnow]
    intro landed hlanded
    rcases List.mem_append.1 hlanded with hold | hlast
    · exact Nat.le_trans (hs.clock landed hold) hle
    · exact Nat.le_of_eq (List.mem_singleton.1 hlast)
  · rw [hseen, ← hcommunity]
    exact hs.seen
  · exact hqueue cid (hs.queued pending pass flush (hphase ▸ hpass) cid hcid)
  · obtain ⟨cid, hcid, hnot⟩ := hok pending pass flush (hphase ▸ hpass) hmay
    refine .inl ⟨cid, ?_, hnot⟩
    rw [← hcommunity]
    have hmem : cid ∈ ((s.community.withoutComments cids).queue
      (s.community.purgedCids cids)).cidsToUnPin := mem_queue_right hcid
    exact hmem
  · rw [hseen, hnow]
    refine (hs.grace pending pass flush (hphase ▸ hpass) cid hcid).imp_right (Or.imp_right ?_)
    rintro ⟨firstSeenAtMs, hmem, hgrace⟩
    exact ⟨firstSeenAtMs, hmem, Nat.le_trans hgrace hle⟩

theorem of_mem_stamp {c : StaleCids.State} {now : Nat} {sighting : Cid × Nat}
    (h : sighting ∈ c.stamp now) :
    sighting ∈ c.firstSeenAtMs ∨ ∃ cid ∈ c.cidsToUnPin, sighting = (cid, now) := by
  rcases List.mem_append.1 h with hold | hnew
  · exact .inl (List.mem_filter.1 hold).1
  · obtain ⟨cid, hcid, rfl⟩ := List.mem_map.1 hnew
    exact .inr ⟨cid, (List.mem_filter.1 hcid).1, rfl⟩

/-- What a pass is about to unpin without a flush has been in the queue for the grace period. -/
theorem mem_stamp_of_mem_now {c : StaleCids.State} {now : Nat} {bypass : Bool}
    (h : cid ∈ c.cidsToUnpinNow now bypass) :
    bypass = true ∨ c.flushGraceForPendingPurge = true ∨ ∃ firstSeenAtMs,
      (cid, firstSeenAtMs) ∈ c.stamp now ∧
        firstSeenAtMs + StaleCids.State.unpinGracePeriodMs ≤ now := by
  obtain ⟨-, hdue⟩ := List.mem_filter.1 h
  rw [Bool.or_eq_true, Bool.or_eq_true, decide_eq_true_eq] at hdue
  rcases hdue with (hbypass | hflush) | hage
  · exact .inl hbypass
  · exact .inr (.inl hflush)
  · cases hlookup : (c.stamp now).lookup cid with
    | none =>
      rw [hlookup, Option.getD_none, Nat.sub_self] at hage
      exact absurd hage (by decide)
    | some firstSeenAtMs =>
      rw [hlookup, Option.getD_some] at hage
      obtain ⟨before, after, heq, -⟩ := List.lookup_eq_some_iff.1 hlookup
      have hgrace : 0 < StaleCids.State.unpinGracePeriodMs := by decide
      refine .inr (.inr ⟨firstSeenAtMs, ?_, by omega⟩)
      rw [heq]
      exact List.mem_append_right _ List.mem_cons_self

/-- A new pass has read what is pending. -/
theorem Ok.startPass {now : Nat} (hs : Ok s) (ha : a = .publishRecord now ∨ a = .stop now)
    (h : s.step a = some s') : Ok s' := by
  obtain ⟨htime, hcommunity, hnow', hunflushed, hfailed, hseen⟩ := step_eq_some h
  obtain ⟨c₁, bypass, pass, hpass, harmed, hfirst, -, -, hbypass, -⟩ :=
    startPass_eq_some ha hcommunity
  have hghost : s'.nowMs = now ∧ s.nowMs ≤ now ∧ s'.unflushed = s.unflushed ∧ s'.failed = false ∧
      s'.seen = s.seen ++ s'.community.cidsToUnPin.map fun cid => (cid, now) := by
    rcases ha with rfl | rfl <;> exact ⟨hnow', htime now rfl, hunflushed, hfailed, hseen⟩
  obtain ⟨hnow, hle, hunflushed, hfailed, hseen⟩ := hghost
  have hstamp : ∀ sighting ∈ c₁.stamp now, sighting ∈ s'.seen := by
    intro sighting hmem
    rw [hseen, hpass]
    rcases of_mem_stamp hmem with hold | ⟨cid, hcid, rfl⟩
    · exact List.mem_append_left _ (hs.seen sighting (hfirst ▸ hold))
    · exact List.mem_append_right _ (List.mem_map_of_mem hcid)
  have hphase : s'.community.phase = .unpinning (c₁.cidsToUnpinNow now bypass) pass
      ⟨c₁.flushGraceForPendingPurge && !c₁.cidsToUnPin.isEmpty, c₁.purgeFlushArmedAtMs⟩ := by
    rw [hpass]
    rfl
  refine ⟨?_, ?_, ?_, fun pending pass' flush hrunning cid hcid => ?_,
    fun pending pass' flush hrunning hmay => ?_, fun pending pass' flush hrunning cid hcid => ?_⟩
  · rw [hunflushed, hpass]
    exact fun landed hlanded => harmed ▸ hs.armed landed hlanded
  · rw [hunflushed, hnow]
    exact fun landed hlanded => Nat.le_trans (hs.clock landed hlanded) hle
  · rw [hpass]
    exact hstamp
  · cases hphase.symm.trans hrunning
    rw [hpass]
    exact (List.mem_filter.1 hcid).1
  · cases hphase.symm.trans hrunning
    rw [hpass]
    exact .inr ⟨rfl, hfailed⟩
  · cases hphase.symm.trans hrunning
    rw [hnow]
    have hqueued : c₁.cidsToUnPin.isEmpty = false :=
      List.isEmpty_eq_false_iff_exists_mem.2 ⟨cid, (List.mem_filter.1 hcid).1⟩
    rcases mem_stamp_of_mem_now hcid with hstop | hflush | ⟨firstSeenAtMs, hmem, hgrace⟩
    · exact .inl (hbypass hstop)
    · exact .inr (.inl (by rw [hflush, hqueued]; rfl))
    · exact .inr (.inr ⟨firstSeenAtMs, hstamp _ hmem, hgrace⟩)

theorem Ok.pinRm (hs : Ok s) (h : s.step (.pinRm cid) = some s') : Ok s' := by
  obtain ⟨-, hcommunity, hnow, hunflushed, hfailed, hseen⟩ := step_eq_some h
  obtain ⟨pending, pass, flush, hphase, hmem, hcommunity⟩ := pinRm_eq_some hcommunity
  have hkeep : ∀ cid' ≠ cid, cid' ∈ s.community.cidsToUnPin → cid' ∈ s'.community.cidsToUnPin := by
    rw [hcommunity]
    exact fun cid' hne hcid' => List.mem_filter.2 ⟨hcid', decide_eq_true hne⟩
  have hseen' : ∀ cid' ≠ cid, ∀ firstSeenAtMs, (cid', firstSeenAtMs) ∈ s.seen →
      (cid', firstSeenAtMs) ∈ s'.seen := by
    rw [hseen]
    exact fun cid' hne firstSeenAtMs hin => List.mem_filter.2 ⟨hin, decide_eq_true hne⟩
  have hphase' : s'.community.phase =
      .unpinning (pending.filter fun queued => queued ≠ cid) pass flush := by
    rw [hcommunity]
  have hstill : ∀ cid' ∈ pending.filter fun queued => queued ≠ cid, cid' ∈ pending ∧ cid' ≠ cid :=
    fun cid' hcid' => ⟨(List.mem_filter.1 hcid').1, of_decide_eq_true (List.mem_filter.1 hcid').2⟩
  refine ⟨?_, ?_, ?_, fun pending' pass' flush' hrunning cid' hcid' => ?_,
    fun pending' pass' flush' hrunning hmay => ?_,
    fun pending' pass' flush' hrunning cid' hcid' => ?_⟩
  · rw [hunflushed, hcommunity]
    exact hs.armed
  · rw [hunflushed, hnow]
    exact hs.clock
  · rw [hcommunity]
    intro sighting hin
    obtain ⟨hold, hne⟩ := List.mem_filter.1 hin
    exact hseen' _ (of_decide_eq_true hne) _ (hs.seen sighting hold)
  · cases hphase'.symm.trans hrunning
    obtain ⟨hcid', hne⟩ := hstill cid' hcid'
    exact hkeep cid' hne (hs.queued _ _ _ hphase cid' hcid')
  · cases hphase'.symm.trans hrunning
    rcases hs.pass _ _ _ hphase hmay with ⟨left, hleft, hnot⟩ | ⟨harmed, hnone⟩
    · refine .inl ⟨left, hkeep left (fun heq => hnot (heq ▸ hmem)) hleft, fun hin => ?_⟩
      exact hnot (hstill left hin).1
    · refine .inr ⟨?_, hfailed.trans hnone⟩
      rw [hcommunity]
      exact harmed
  · cases hphase'.symm.trans hrunning
    obtain ⟨hcid', hne⟩ := hstill cid' hcid'
    refine (hs.grace _ _ _ hphase cid' hcid').imp_right (Or.imp_right ?_)
    rintro ⟨firstSeenAtMs, hin, hgrace⟩
    exact ⟨firstSeenAtMs, hseen' cid' hne _ hin, Nat.le_trans hgrace (nowMs_le h)⟩

/-- What a pass could not unpin stays in the queue. -/
theorem Ok.pinRmFails (hs : Ok s) (h : s.step (.pinRmFails cid) = some s') : Ok s' := by
  obtain ⟨-, hcommunity, hnow, hunflushed, hfailed, hseen⟩ := step_eq_some h
  obtain ⟨pending, pass, flush, hphase, hcommunity⟩ := pinRmFails_eq_some hcommunity
  have hfailed : s'.failed = (s.failed || pending.contains cid) := by
    rw [hfailed, State.failedAfter, hphase]
  have hphase' : s'.community.phase =
      .unpinning (pending.filter fun queued => queued ≠ cid) pass flush := by
    rw [hcommunity]
  have hstill : ∀ cid' ∈ pending.filter fun queued => queued ≠ cid, cid' ∈ pending ∧ cid' ≠ cid :=
    fun cid' hcid' => ⟨(List.mem_filter.1 hcid').1, of_decide_eq_true (List.mem_filter.1 hcid').2⟩
  refine ⟨?_, ?_, ?_, fun pending' pass' flush' hrunning cid' hcid' => ?_,
    fun pending' pass' flush' hrunning hmay => ?_,
    fun pending' pass' flush' hrunning cid' hcid' => ?_⟩
  · rw [hunflushed, hcommunity]
    exact hs.armed
  · rw [hunflushed, hnow]
    exact hs.clock
  · rw [hcommunity, hseen]
    exact hs.seen
  · cases hphase'.symm.trans hrunning
    rw [hcommunity]
    exact hs.queued _ _ _ hphase cid' (hstill cid' hcid').1
  · cases hphase'.symm.trans hrunning
    rw [hcommunity, hfailed]
    rcases hs.pass _ _ _ hphase hmay with ⟨left, hleft, hnot⟩ | ⟨harmed, hnone⟩
    · exact .inl ⟨left, hleft, fun hin => hnot (hstill left hin).1⟩
    · by_cases hmem : cid ∈ pending
      · exact .inl ⟨cid, hs.queued _ _ _ hphase cid hmem, fun hin => (hstill cid hin).2 rfl⟩
      · exact .inr ⟨harmed, by rw [hnone, List.contains_eq_mem, decide_eq_false hmem]; rfl⟩
  · cases hphase'.symm.trans hrunning
    rw [hseen, hnow]
    exact hs.grace _ _ _ hphase cid' (hstill cid' hcid').1

/-- The flag is disarmed when nothing is left and everything that was pending landed before. -/
theorem Ok.disarmable (hs : Ok s) (ha : (∃ removed, a = .passEnds removed) ∨ a = .failsAfterPublish)
    {pass : Pass} {flush : Flush} (hphase : s.community.phase = .unpinning [] pass flush)
    (hmay : MayDisarm pass flush) (hempty : s.community.cidsToUnPin = []) :
    s.community.purgeFlushArmedAtMs = flush.purgeFlushArmedAtMs ∧ s.failed = false ∧
      s.unflushedAfter a = [] := by
  rcases hs.pass _ _ _ hphase hmay with ⟨left, hleft, -⟩ | ⟨harmed, hnone⟩
  · rw [hempty] at hleft
    cases hleft
  · have hbefore : ∀ landed ∈ s.unflushed, ∃ startedAtMs,
        cycleStartedAtMs pass = some startedAtMs ∧ landed < startedAtMs := by
      intro landed hlanded
      obtain ⟨armedAtMs, hsome, hle⟩ := hs.armed landed hlanded
      have hall := hmay.2
      rw [← harmed, hsome, Option.all_some] at hall
      cases hstarted : cycleStartedAtMs pass with
      | none =>
        rw [hstarted] at hall
        cases hall
      | some startedAtMs =>
        rw [hstarted, Option.any_some, decide_eq_true_eq] at hall
        exact ⟨startedAtMs, rfl, Nat.lt_of_le_of_lt hle hall⟩
    refine ⟨harmed, hnone, ?_⟩
    cases pass with
    | publish record startedAtMs =>
      have hafter : s.unflushedAfter a =
          s.unflushed.filter fun landed => ¬ landed < startedAtMs := by
        rcases ha with ⟨removed, rfl⟩ | rfl <;> rw [State.unflushedAfter, hphase, hnone] <;> rfl
      rw [hafter]
      refine List.filter_eq_nil_iff.2 fun landed hlanded => ?_
      obtain ⟨_, hstarted, hlt⟩ := hbefore landed hlanded
      cases hstarted
      exact fun hlater => of_decide_eq_true hlater hlt
    | stop =>
      have hafter : s.unflushedAfter a = s.unflushed := by
        rcases ha with ⟨removed, rfl⟩ | rfl <;> rw [State.unflushedAfter, hphase]
      rw [hafter]
      refine List.eq_nil_iff_forall_not_mem.2 fun landed hlanded => ?_
      obtain ⟨_, hstarted, -⟩ := hbefore landed hlanded
      cases hstarted

theorem disarm_armed (c : StaleCids.State) (flush : Flush) (startedAtMs : Option Nat) :
    (c.disarm flush startedAtMs).purgeFlushArmedAtMs = c.purgeFlushArmedAtMs ∨
      flush.flushGraceForPendingPurge = true ∧ c.cidsToUnPin = [] ∧
        flush.purgeFlushArmedAtMs.all (fun armedAtMs =>
          startedAtMs.any fun startedAtMs => armedAtMs < startedAtMs) = true := by
  rw [StaleCids.State.disarm]
  split
  · exact .inr ‹_›
  · exact .inl rfl

theorem Ok.passEnds (hs : Ok s) (ha : (∃ removed, a = .passEnds removed) ∨ a = .failsAfterPublish)
    (h : s.step a = some s') : Ok s' := by
  obtain ⟨-, hcommunity, hnow, hunflushed, -, hseen⟩ := step_eq_some h
  obtain ⟨pass, flush, hphase, harmed, hfirst, -, hnot⟩ := passEnds_eq_some ha hcommunity
  have hless : ∀ landed ∈ s.unflushedAfter a, landed ∈ s.unflushed := by
    intro landed hlanded
    cases pass with
    | publish record startedAtMs =>
      rcases ha with ⟨removed, rfl⟩ | rfl
      all_goals
        rw [State.unflushedAfter, hphase] at hlanded
        dsimp only at hlanded
        split at hlanded
        · exact hlanded
        · exact (List.mem_filter.1 hlanded).1
    | stop =>
      rcases ha with ⟨removed, rfl⟩ | rfl
      all_goals
        rw [State.unflushedAfter, hphase] at hlanded
        exact hlanded
  have hghost : s'.nowMs = s.nowMs ∧ s'.seen = s.seen := by
    rcases ha with ⟨removed, rfl⟩ | rfl <;> exact ⟨hnow, hseen⟩
  refine .of_notUnpinning hnot ?_ ?_ ?_
  · rw [hunflushed, harmed]
    rcases disarm_armed _ _ _ with hsame | ⟨hflush, hempty, hall⟩
    · rw [hsame]
      exact fun landed hlanded => hs.armed landed (hless landed hlanded)
    · rw [(hs.disarmable ha hphase ⟨hflush, hall⟩ hempty).2.2]
      nofun
  · rw [hunflushed, hghost.1]
    exact fun landed hlanded => hs.clock landed (hless landed hlanded)
  · rw [hfirst, hghost.2]
    exact hs.seen

/-- **A step keeps it**, if no purge lands where a pass would disarm it. -/
theorem Ok.step (hs : Ok s) (hok : Apart s a) (h : s.step a = some s') : Ok s' := by
  cases a with
  | publishRecord now => exact hs.startPass (.inl rfl) h
  | stop now => exact hs.startPass (.inr rfl) h
  | pinRm cid => exact hs.pinRm h
  | pinRmFails cid => exact hs.pinRmFails h
  | passEnds removed => exact hs.passEnds (.inl ⟨removed, rfl⟩) h
  | failsAfterPublish => exact hs.passEnds (.inr rfl) h
  | purge cids queues now =>
    cases queues with
    | true => exact hs.purge hok h
    | false =>
      have hquiet : Quiet (.purge cids false now) := rfl
      exact hs.quiet hquiet h
  | start sameInstance =>
    have hquiet : Quiet (.start sameInstance) := hok
    exact hs.quiet hquiet h
  | _ =>
    refine hs.quiet ?_ h
    trivial

theorem Ok.of_fresh (h : Fresh s) : Ok s := by
  obtain ⟨hphase, hfirst, hunflushed, -⟩ := h
  refine .of_notUnpinning (notUnpinning_of_phase hphase nofun) ?_ ?_ ?_
  · rw [hunflushed]
    nofun
  · rw [hunflushed]
    nofun
  · rw [hfirst]
    nofun

end Invariant

/-! ## What stays queued -/

section Queue

variable {c c' : StaleCids.State} {s s' t : State} {a : Action} {cid : Cid} {es : List Action}

theorem mem_queue_of_step (h : StaleCids.step c a = some c') (hcid : cid ∈ c.cidsToUnPin) :
    cid ∈ c'.cidsToUnPin ∨ a = .pinRm cid := by
  by_cases hquiet : Quiet a
  · exact .inl ((kept_of_quiet hquiet h).queue cid hcid)
  · cases a with
    | publishRecord now =>
      obtain ⟨c₁, bypass, pass, rfl, -, -, -, hqueue, -⟩ := startPass_eq_some (.inl rfl) h
      exact .inl (hqueue cid hcid)
    | stop now =>
      obtain ⟨c₁, bypass, pass, rfl, -, -, -, hqueue, -⟩ := startPass_eq_some (.inr rfl) h
      exact .inl (hqueue cid hcid)
    | pinRm unpinned =>
      obtain ⟨pending, pass, flush, -, -, rfl⟩ := pinRm_eq_some h
      by_cases heq : cid = unpinned
      · exact .inr (by rw [heq])
      · exact .inl (List.mem_filter.2 ⟨hcid, decide_eq_true heq⟩)
    | pinRmFails failing =>
      obtain ⟨pending, pass, flush, -, rfl⟩ := pinRmFails_eq_some h
      exact .inl hcid
    | passEnds removed =>
      obtain ⟨pass, flush, -, -, -, hqueue, -⟩ := passEnds_eq_some (.inl ⟨removed, rfl⟩) h
      exact .inl (hqueue ▸ hcid)
    | failsAfterPublish =>
      obtain ⟨pass, flush, -, -, -, hqueue, -⟩ := passEnds_eq_some (.inr rfl) h
      exact .inl (hqueue ▸ hcid)
    | purge cids queues now =>
      cases queues with
      | true =>
        cases h
        exact .inl (List.mem_append_left _ hcid)
      | false => exact (hquiet rfl).elim
    | start sameInstance =>
      rw [StaleCids.step] at h
      split at h <;> cases h
      split <;> exact .inl hcid
    | _ => exact (hquiet trivial).elim

/-- **What is queued stays queued** until it is unpinned. -/
theorem mem_queue_of_run (hrun : Run State.step anyStep s es t)
    (hcid : cid ∈ s.community.cidsToUnPin) : cid ∈ t.community.cidsToUnPin ∨ .pinRm cid ∈ es := by
  induction hrun with
  | nil => exact .inl hcid
  | cons _ hstep _ ih =>
    rcases mem_queue_of_step (step_eq_some hstep).2.1 hcid with hkept | rfl
    · exact (ih hkept).imp_right (List.mem_cons_of_mem _)
    · exact .inr List.mem_cons_self

/-- An action queues what it supersedes. -/
theorem mem_queue_of_queuedBy (h : StaleCids.step c a = some c') (hcid : cid ∈ queuedBy c a) :
    cid ∈ c'.cidsToUnPin := by
  cases a with
  | calculateSlice rows =>
    rw [StaleCids.step] at h
    split at h <;> cases h
    have hmem : cid ∈ (c.queue (rows.flatMap c.supersededPages)).cidsToUnPin :=
      mem_queue_right hcid
    exact hmem
  | buildRecord record now =>
    rw [StaleCids.step] at h
    split at h <;> cases h
    have hmem : cid ∈ (c.queue (c.supersededByRecord record)).cidsToUnPin := mem_queue_right hcid
    exact hmem
  | publishRecord now =>
    obtain ⟨c₁, bypass, pass, rfl, -, -, -, -, -, hqueue⟩ := startPass_eq_some (.inl rfl) h
    exact hqueue cid hcid
  | rejectComment rejected =>
    cases h
    exact mem_queue_right hcid
  | purge cids queues now =>
    cases queues with
    | true =>
      cases h
      have hmem : cid ∈ ((c.withoutComments cids).queue (c.purgedCids cids)).cidsToUnPin :=
        mem_queue_right hcid
      exact hmem
    | false => cases hcid
  | queueModQueuePages cids =>
    cases h
    exact mem_queue_right hcid
  | _ => cases hcid

end Queue

/-! ## What a pass unpins -/

section Pass

variable {s s' t : State} {a : Action} {es : List Action} {pending : List Cid} {pass : Pass}
  {flush : Flush}

theorem inPass_step (hphase : s.community.phase = .unpinning pending pass flush) (hok : InPass s a)
    (h : s.step a = some s') : ∃ pending',
      s'.community.phase = .unpinning pending' pass flush ∧ (s.failed = true → s'.failed = true) ∧
      ∀ c ∈ pending, c ∈ pending' ∨ a = .pinRm c ∨ s'.failed = true := by
  obtain ⟨-, hcommunity, -, -, hfailed, -⟩ := step_eq_some h
  by_cases hquiet : Quiet a
  · rcases (kept_of_quiet hquiet hcommunity).phase with hsame | ⟨hnot, -⟩
    · rw [(ghost_of_quiet s s' hquiet).2.1] at hfailed
      exact ⟨pending, hsame.trans hphase, fun htrue => hfailed.trans htrue, fun c hc => .inl hc⟩
    · exact (hnot _ _ _ hphase).elim
  · cases a with
    | publishRecord now =>
      rw [StaleCids.step, hphase] at hcommunity
      cases hcommunity
    | stop now =>
      rw [StaleCids.step, hphase] at hcommunity
      cases hcommunity
    | pinRm cid =>
      obtain ⟨_, _, _, hsame, -, hcommunity⟩ := pinRm_eq_some hcommunity
      cases hsame.symm.trans hphase
      refine ⟨_, by rw [hcommunity], fun htrue => hfailed.trans htrue, fun c hc => ?_⟩
      by_cases heq : c = cid
      · exact .inr (.inl (by rw [heq]))
      · exact .inl (List.mem_filter.2 ⟨hc, decide_eq_true heq⟩)
    | pinRmFails cid =>
      obtain ⟨_, _, _, hsame, hcommunity⟩ := pinRmFails_eq_some hcommunity
      cases hsame.symm.trans hphase
      have hfailed : s'.failed = (s.failed || pending.contains cid) := by
        rw [hfailed, State.failedAfter, hphase]
      refine ⟨_, by rw [hcommunity], fun htrue => by rw [hfailed, htrue]; rfl, fun c hc => ?_⟩
      by_cases heq : c = cid
      · refine .inr (.inr ?_)
        rw [hfailed, ← heq, List.contains_eq_mem, decide_eq_true hc, Bool.or_true]
      · exact .inl (List.mem_filter.2 ⟨hc, decide_eq_true heq⟩)
    | passEnds removed => exact hok.elim
    | failsAfterPublish => exact hok.elim
    | purge cids queues now =>
      cases queues with
      | true =>
        obtain hcommunity := Option.some.inj hcommunity
        refine ⟨pending, ?_, fun htrue => hfailed.trans htrue, fun c hc => .inl hc⟩
        rw [← hcommunity]
        exact hphase
      | false => exact (hquiet rfl).elim
    | start sameInstance =>
      rw [StaleCids.step, hphase] at hcommunity
      cases hcommunity
    | _ => exact (hquiet trivial).elim

theorem inPass_run (hrun : Run State.step InPass s es t) :
    ∀ {pending}, s.community.phase = .unpinning pending pass flush → ∃ pending',
      t.community.phase = .unpinning pending' pass flush ∧ (s.failed = true → t.failed = true) ∧
      ∀ c ∈ pending, c ∈ pending' ∨ .pinRm c ∈ es ∨ t.failed = true := by
  induction hrun with
  | nil => exact fun hphase => ⟨_, hphase, id, fun c hc => .inl hc⟩
  | cons hok hstep _ ih =>
    intro pending hphase
    obtain ⟨pending', hphase', hfailed', hleft'⟩ := inPass_step hphase hok hstep
    obtain ⟨pending'', hphase'', hfailed'', hleft''⟩ := ih hphase'
    refine ⟨pending'', hphase'', fun htrue => hfailed'' (hfailed' htrue), fun c hc => ?_⟩
    rcases hleft' c hc with hmem | rfl | htrue
    · exact (hleft'' c hmem).imp_right (Or.imp_left (List.mem_cons_of_mem _))
    · exact .inr (.inl List.mem_cons_self)
    · exact .inr (.inr (hfailed'' htrue))

end Pass

/-! ## Whole runs -/

section Flushed

variable {s s' t : State} {a : Action} {es : List Action}

/-- A pass that starts while a purge is not flushed is to unpin the whole queue. -/
theorem Ok.complete (hs : Ok s) {now : Nat} {pass : Pass} {flush : Flush} (hleft : s.unflushed ≠ [])
    (h : s.step (.publishRecord now) = some s') (hrun : Run State.step InPass s' es t)
    (hphase : t.community.phase = .unpinning [] pass flush) (hnone : t.failed = false) :
    ∀ c ∈ s'.community.cidsToUnPin, .pinRm c ∈ es := by
  obtain ⟨-, hcommunity, -⟩ := step_eq_some h
  obtain ⟨c₁, bypass, pass', hpass, harmed, -⟩ := startPass_eq_some (.inl rfl) hcommunity
  obtain ⟨landed, hlanded⟩ := List.exists_mem_of_ne_nil _ hleft
  obtain ⟨armedAtMs, hsome, -⟩ := hs.armed landed hlanded
  have hflush : c₁.flushGraceForPendingPurge = true := by
    rw [StaleCids.State.flushGraceForPendingPurge, harmed, hsome]
    rfl
  have hall : c₁.cidsToUnpinNow now bypass = c₁.cidsToUnPin := by
    refine List.filter_eq_self.2 fun cid _ => ?_
    rw [hflush, Bool.or_true, Bool.true_or]
  intro c hc
  rw [hpass] at hc
  have hpending : c ∈ c₁.cidsToUnpinNow now bypass := hall ▸ hc
  have hstarted : s'.community.phase = .unpinning (c₁.cidsToUnpinNow now bypass) pass'
      ⟨c₁.flushGraceForPendingPurge && !c₁.cidsToUnPin.isEmpty, c₁.purgeFlushArmedAtMs⟩ := by
    rw [hpass]
    rfl
  obtain ⟨pending, hended, -, hunpinned⟩ := inPass_run hrun hstarted
  cases hended.symm.trans hphase
  rcases hunpinned c hpending with hmem | hmem | htrue
  · cases hmem
  · exact hmem
  · rw [hnone] at htrue
    cases htrue

/-- A step disarms the flag at the end of a pass only. -/
theorem Ok.disarmed (hs : Ok s) {armedAtMs : Nat} (h : s.step a = some s')
    (harmed : s.community.purgeFlushArmedAtMs = some armedAtMs)
    (hnone : s'.community.purgeFlushArmedAtMs = none) :
    (∃ sameInstance, a = .start sameInstance) ∨
      s'.unflushed = [] ∧ s.failed = false ∧ s.community.cidsToUnPin = [] ∧
        ∃ pass flush startedAtMs, s.community.phase = .unpinning [] pass flush ∧
          cycleStartedAtMs pass = some startedAtMs ∧ armedAtMs < startedAtMs := by
  obtain ⟨-, hcommunity, -, hunflushed, -⟩ := step_eq_some h
  have hends : ((∃ removed, a = .passEnds removed) ∨ a = .failsAfterPublish) →
      s'.unflushed = [] ∧ s.failed = false ∧ s.community.cidsToUnPin = [] ∧
        ∃ pass flush startedAtMs, s.community.phase = .unpinning [] pass flush ∧
          cycleStartedAtMs pass = some startedAtMs ∧ armedAtMs < startedAtMs := by
    intro ha
    obtain ⟨pass, flush, hphase, hend, -⟩ := passEnds_eq_some ha hcommunity
    rcases disarm_armed s.community flush (cycleStartedAtMs pass) with hsame | ⟨hflush, hempty, hall⟩
    · rw [hend, hsame, harmed] at hnone
      cases hnone
    · obtain ⟨hread, hfailed, hafter⟩ := hs.disarmable ha hphase ⟨hflush, hall⟩ hempty
      refine ⟨hunflushed.trans hafter, hfailed, hempty, pass, flush, ?_⟩
      rw [← hread, harmed, Option.all_some] at hall
      cases hstarted : cycleStartedAtMs pass with
      | none =>
        rw [hstarted] at hall
        cases hall
      | some startedAtMs =>
        rw [hstarted, Option.any_some, decide_eq_true_eq] at hall
        exact ⟨startedAtMs, hphase, rfl, hall⟩
  have hkept : s'.community.purgeFlushArmedAtMs = s.community.purgeFlushArmedAtMs → False := by
    intro hsame
    rw [hsame, harmed] at hnone
    cases hnone
  by_cases hquiet : Quiet a
  · exact (hkept (kept_of_quiet hquiet hcommunity).armed).elim
  · cases a with
    | publishRecord now =>
      obtain ⟨c₁, bypass, pass, hpass, hsame, -⟩ := startPass_eq_some (.inl rfl) hcommunity
      exact (hkept (by rw [hpass]; exact hsame)).elim
    | stop now =>
      obtain ⟨c₁, bypass, pass, hpass, hsame, -⟩ := startPass_eq_some (.inr rfl) hcommunity
      exact (hkept (by rw [hpass]; exact hsame)).elim
    | pinRm cid =>
      obtain ⟨_, _, _, -, -, hsame⟩ := pinRm_eq_some hcommunity
      exact (hkept (by rw [hsame])).elim
    | pinRmFails cid =>
      obtain ⟨_, _, _, -, hsame⟩ := pinRmFails_eq_some hcommunity
      exact (hkept (by rw [hsame])).elim
    | passEnds removed => exact .inr (hends (.inl ⟨removed, rfl⟩))
    | failsAfterPublish => exact .inr (hends (.inr rfl))
    | purge cids queues now =>
      cases queues with
      | true =>
        rw [← Option.some.inj hcommunity] at hnone
        cases hnone
      | false => exact (hquiet rfl).elim
    | start sameInstance => exact .inl ⟨sameInstance, rfl⟩
    | _ => exact (hquiet trivial).elim

theorem Ok.flushed (hs : Ok s) : Flushed s where
  pending := hs.armed
  disarmed := fun _ _ _ h harmed hnone => hs.disarmed h harmed hnone
  queued := fun _ _ _ _ _ h hc hrun =>
    mem_queue_of_run hrun (mem_queue_of_queuedBy (step_eq_some h).2.1 hc)
  complete := fun _ _ _ _ _ _ hleft h hrun hphase hnone => hs.complete hleft h hrun hphase hnone
  grace := fun c s' h => by
    obtain ⟨pending, pass, flush, hphase, hmem, -⟩ := pinRm_eq_some (step_eq_some h).2.1
    exact ⟨pending, pass, flush, hphase, hs.grace _ _ _ hphase c hmem⟩

/-- **Purges are flushed** in every run in which none lands during a pass that may disarm another,
unless it queues something that the pass does not unpin. -/
theorem flushed_of_run (hfresh : Fresh s) (hrun : Run State.step Apart s es t) : Flushed t :=
  hrun.invariant_of (fun _ => Ok.flushed) (fun _ _ _ hs hok h => Ok.step hs hok h)
    (Ok.of_fresh hfresh)

end Flushed

/-! ## A purge that lands during the pass -/

/-- A community that was just started. -/
def started : State := ⟨StaleCids.empty, 0, [], false, []⟩

/-- A purge, and the cycle that flushes it. -/
def purgeThenCycle : List Action :=
  [.storeComment "X", .purge ["X"] true 1, .startCycle, .buildRecord ⟨"U", "S", []⟩ 2,
    .publishRecord 2, .pinRm "X", .passEnds []]

theorem flushed_purgeThenCycle :
    ∃ t, Run State.step Apart started purgeThenCycle t ∧ t.unflushed = [] ∧ Flushed t := by
  have hrun : ∃ t, Run State.step Apart started purgeThenCycle t ∧ t.unflushed = [] :=
    ⟨_, .cons trivial rfl <| .cons nofun rfl <| .cons trivial rfl <| .cons trivial rfl <|
      .cons trivial rfl <| .cons trivial rfl <| .cons trivial rfl <| .nil _, rfl⟩
  obtain ⟨t, hrun, hnone⟩ := hrun
  exact ⟨t, hrun, hnone, flushed_of_run ⟨rfl, rfl, rfl, rfl⟩ hrun⟩

/-- The comment is stored again before the cycle, and purged again while the pass runs. -/
def purgeDuringPass : List Action :=
  [.storeComment "X", .purge ["X"] true 1, .storeComment "X", .startCycle,
    .buildRecord ⟨"U", "S", []⟩ 2, .publishRecord 2, .purge ["X"] true 3, .pinRm "X", .passEnds []]

theorem not_flushed : ¬ ∀ (s t : State) (es : List Action), Fresh s →
    Run State.step OneInstance s es t → Flushed t := by
  intro h
  obtain ⟨t, ht⟩ : ∃ t, execOk State.step OneInstance started purgeDuringPass = some t := ⟨_, rfl⟩
  have hleft : 3 ∈ t.unflushed := by
    cases ht
    decide
  have hdisarmed : t.community.purgeFlushArmedAtMs = none := by
    cases ht
    rfl
  obtain ⟨armedAtMs, harmed, -⟩ :=
    (h started t _ ⟨rfl, rfl, rfl, rfl⟩ (Run.of_execOk ht)).pending 3 hleft
  rw [hdisarmed] at harmed
  cases harmed

end PurgeFlush
end Pkc

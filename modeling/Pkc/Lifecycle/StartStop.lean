import Pkc.Library.Runs
import Mathlib.Logic.Function.Basic
import Mathlib.Tactic.Spread

/-!
# Starting and stopping the instances of one community

Several instances of a community live in one process.  Each call of `start()` or `stop()` is a task
of its own that other tasks can overtake at every `await`; a step of the system is a new call, or
one task going on to its next `await`.

* `start()` reads the start lock, rejects if it is held or an instance is registered, and otherwise
  prepares, sets its state to started and takes the lock.  Whatever fails after the check goes
  through `stop()`.
* `stop()` of an instance whose state is started unpins, writes the internal state, unlocks the
  start lock *by its path*, unregisters the instance and closes its database connection.  An error
  on the way to the unlock is logged and the teardown goes on.
* `running` records who took the lock and has not given it back, and `damage` what was done to
  such a run by anybody else; both are history, read by no transition.

`Orderly` says when a lock may be taken and when a teardown may begin, and `one_running_instance`
proves that then at most one instance runs and no run is ever damaged.
-/

set_option autoImplicit false

namespace Pkc
namespace StartStop

open Runs

inductive CommunityState
  | stopped | started
deriving DecidableEq, Repr

/-- The `await` a call is at.  The second half is `stop()`. -/
inductive Await
  | updateStartedValue
  | checkAlreadyStarted
  | initBeforeStarting
  | updateStartedValueBeforeLock
  | lockCommunityStart
  | trackStartedCommunity
  /-- Refreshing `started` and opening the database. -/
  | updateStartedValueAfterLock
  | createOrMigrateTablesIfNeeded
  | setChallengesToDefaultIfNotDefined
  /-- The default challenges are written through `editPropsOnNotStartedCommunity`. -/
  | editPropsOnNotStartedCommunity
  /-- The connection is closed before an error of the migration or of `edit` is thrown. -/
  | closeBeforeThrow
  /-- From the second loading of the challenges to the page sorts. -/
  | bringUp
  | pubsubUnsubscribe
  | publishLoopPromise
  | unpinStaleCids
  | updateDbInternalState
  | unlockCommunityStart
  | untrackStartedCommunity
  | rollbackAllTransactions
  | destoryConnection
  | returned
deriving DecidableEq, Repr

/-- What a call can do to a run. -/
inductive Effect
  | unpin | writeInternalState | unlock | closeConnection
deriving DecidableEq, Repr

universe u

variable {ι : Type u}

/-- A call in progress.  `target` is the run it may tear down: its own for a `start()`, the one the
instance has when it is called for a `stop()`. -/
structure Call (ι : Type u) where
  inst : ι
  target : Option Nat
  pc : Await
deriving DecidableEq

/-- A `start()`, named by its number, that holds the start lock. -/
structure Holder (ι : Type u) where
  inst : ι
  start : Nat
deriving DecidableEq

structure State (ι : Type u) where
  /-- `community.state` of each instance. -/
  state : ι → CommunityState
  /-- `community.started` of each instance: what the lock was when it last looked. -/
  started : ι → Bool
  /-- Whether the `.start.lock` file of the community is there. -/
  lockFile : Bool
  /-- The instance that owns the aliases of the community in the registries. -/
  tracked : Option ι
  calls : List (Call ι)
  running : List (Holder ι)
  damage : List (Effect × Nat)

inductive Action (ι : Type u)
  | start (i : ι)
  | stop (i : ι)
  /-- Call number `k` goes on to its next `await`; `ok` says whether what it waited for
  succeeded. -/
  | resume (k : Nat) (ok : Bool)
deriving DecidableEq

variable [DecidableEq ι]

namespace State

/-- Where a `stop()` begins. -/
def stopCalled (s : State ι) (i : ι) : Await :=
  if s.state i = .started then .pubsubUnsubscribe else .returned

/-- The upgrade of the default challenges calls `edit`, which hands over to a registered instance,
throws for a community that is started elsewhere, and writes the database itself otherwise. -/
def editChallenges (s : State ι) (i : ι) : Await :=
  match s.tracked with
  | some j =>
    if s.state i = .started ∧ j ≠ i then s.stopCalled i else .bringUp
  | none =>
    if s.lockFile = true then
      if s.state i = .started then s.stopCalled i else .closeBeforeThrow
    else .editPropsOnNotStartedCommunity

/-- The next `await` of a call. -/
def next (upgradesChallenges : ι → Bool) (s : State ι) (c : Call ι) (ok : Bool) : Await :=
  match c.pc with
  | .updateStartedValue => if ok then .checkAlreadyStarted else .returned
  | .checkAlreadyStarted =>
    if s.started c.inst = true ∨ s.tracked.isSome = true then .returned else .initBeforeStarting
  | .initBeforeStarting => if ok then .updateStartedValueBeforeLock else s.stopCalled c.inst
  | .updateStartedValueBeforeLock => if ok then .lockCommunityStart else s.stopCalled c.inst
  | .lockCommunityStart =>
    if ok = true ∧ s.lockFile = false then .trackStartedCommunity else s.stopCalled c.inst
  | .trackStartedCommunity => .updateStartedValueAfterLock
  | .updateStartedValueAfterLock =>
    if ok then .createOrMigrateTablesIfNeeded else s.stopCalled c.inst
  | .createOrMigrateTablesIfNeeded =>
    if ok then .setChallengesToDefaultIfNotDefined else .closeBeforeThrow
  | .setChallengesToDefaultIfNotDefined =>
    if ok then
      if upgradesChallenges c.inst then s.editChallenges c.inst else .bringUp
    else s.stopCalled c.inst
  | .editPropsOnNotStartedCommunity => if ok then .bringUp else s.stopCalled c.inst
  | .closeBeforeThrow => s.stopCalled c.inst
  | .bringUp => if ok then .returned else s.stopCalled c.inst
  | .pubsubUnsubscribe => .publishLoopPromise
  | .publishLoopPromise => .unpinStaleCids
  | .unpinStaleCids => .updateDbInternalState
  | .updateDbInternalState => .unlockCommunityStart
  | .unlockCommunityStart => .untrackStartedCommunity
  | .untrackStartedCommunity => .rollbackAllTransactions
  | .rollbackAllTransactions => if ok then .destoryConnection else .returned
  | .destoryConnection => .returned
  | .returned => .returned

/-- What the call does to the state on its way to the next `await`. -/
def update (s : State ι) (k : Nat) (c : Call ι) (ok : Bool) : State ι :=
  match c.pc with
  | .updateStartedValue | .updateStartedValueBeforeLock | .updateStartedValueAfterLock
  | .rollbackAllTransactions =>
    if ok then { s with started := Function.update s.started c.inst s.lockFile } else s
  | .initBeforeStarting =>
    if ok then { s with state := Function.update s.state c.inst .started } else s
  | .lockCommunityStart =>
    if ok = true ∧ s.lockFile = false then
      { s with lockFile := true, running := s.running ++ [⟨c.inst, k⟩] }
    else s
  | .trackStartedCommunity => { s with tracked := some c.inst }
  | .unlockCommunityStart =>
    { s with
      lockFile := false
      running := s.running.filter fun r => some r.start ≠ c.target }
  | .untrackStartedCommunity =>
    { s with tracked := if s.tracked = some c.inst then none else s.tracked }
  | .destoryConnection => { s with state := Function.update s.state c.inst .stopped }
  | _ => s

/-- The effects of a call on its way to the next `await`.  An unpin or a write that fails, and an
unlock that finds no lock file, have none. -/
def effects (s : State ι) (pc : Await) (ok : Bool) : List Effect :=
  match pc with
  | .editPropsOnNotStartedCommunity =>
    if ok then [.writeInternalState, .closeConnection] else []
  | .closeBeforeThrow => [.closeConnection]
  | .unpinStaleCids => if ok then [.unpin] else []
  | .updateDbInternalState => if ok then [.writeInternalState] else []
  | .unlockCommunityStart => if s.lockFile then [.unlock] else []
  | .destoryConnection => [.closeConnection]
  | _ => []

end State

/-- Whether an effect of instance `i` meets a run of instance `j`: the connection is the instance's
own, all else belongs to the community. -/
def Effect.reaches : Effect → ι → ι → Bool
  | .closeConnection, i, j => i = j
  | _, _, _ => true

/-- The damage of an effect: every run it reaches other than the one the call tears down. -/
def State.damageOf (s : State ι) (c : Call ι) (e : Effect) : List (Effect × Nat) :=
  (s.running.filter fun r => e.reaches c.inst r.inst ∧ c.target ≠ some r.start).map
    fun r => (e, r.start)

def State.resume (upgradesChallenges : ι → Bool) (s : State ι) (k : Nat) (c : Call ι) (ok : Bool) :
    State ι :=
  { s.update k c ok with
    calls := s.calls.set k { c with pc := s.next upgradesChallenges c ok }
    damage := s.damage ++ (s.effects c.pc ok).flatMap (s.damageOf c) }

/-- The run an instance has. -/
def State.runOf (s : State ι) (i : ι) : Option Nat :=
  (s.running.find? fun r => r.inst = i).map Holder.start

/-- The system.  `none` is an action that is not possible in the state. -/
def step (upgradesChallenges : ι → Bool) (s : State ι) : Action ι → Option (State ι)
  | .start i =>
    some { s with calls := s.calls ++ [⟨i, some s.calls.length, .updateStartedValue⟩] }
  | .stop i => some { s with calls := s.calls ++ [⟨i, s.runOf i, s.stopCalled i⟩] }
  | .resume k ok =>
    match s.calls[k]? with
    | none => none
    | some c => if c.pc = .returned then none else some (s.resume upgradesChallenges k c ok)

/-! ## The property and the condition -/

/-- The instance is in state started and holds the start lock. -/
def State.Runs (s : State ι) (i : ι) : Prop := s.state i = .started ∧ ∃ r ∈ s.running, r.inst = i

/-- One running instance, and nobody else has touched what belongs to a run. -/
structure OneRunning (s : State ι) : Prop where
  single : ∀ i j, s.Runs i → s.Runs j → i = j
  unharmed : s.damage = []

/-- Whether a call that is at this `await` in instance `i` has an effect on a run of `j` before it:
up to the unlock a teardown reaches every run, from there on only those of its own instance. -/
def Await.reaches (pc : Await) (i j : ι) : Bool :=
  match pc with
  | .editPropsOnNotStartedCommunity | .pubsubUnsubscribe | .publishLoopPromise | .unpinStaleCids
  | .updateDbInternalState | .unlockCommunityStart => true
  | .closeBeforeThrow | .untrackStartedCommunity | .rollbackAllTransactions
  | .destoryConnection => i = j
  | _ => false

/-- When a call goes on without harm.

* It takes the lock only when no call in progress can still reach its run.
* It begins what can reach a run (a teardown, a write of the default challenges, the closing of the
  connection) only when that run is its own target. -/
structure OrderlyResume (upgradesChallenges : ι → Bool) (s : State ι) (c : Call ι) (ok : Bool) :
    Prop where
  lock : c.pc = .lockCommunityStart → ok = true → s.lockFile = false →
    ∀ d ∈ s.calls, d.pc.reaches d.inst c.inst = false
  begins : ∀ r ∈ s.running, c.pc.reaches c.inst r.inst = false →
    (s.next upgradesChallenges c ok).reaches c.inst r.inst = true → c.target = some r.start

/-- The condition on a step.  A `stop()` of an instance in state started is called only while no
other instance holds the lock. -/
def Orderly (upgradesChallenges : ι → Bool) (s : State ι) : Action ι → Prop
  | .start _ => True
  | .stop i => s.state i = .started → ∀ r ∈ s.running, r.inst = i
  | .resume k ok => ∀ c ∈ s.calls[k]?, OrderlyResume upgradesChallenges s c ok

instance (upgradesChallenges : ι → Bool) (s : State ι) (c : Call ι) (ok : Bool) :
    Decidable (OrderlyResume upgradesChallenges s c ok) :=
  decidable_of_iff (_ ∧ _) ⟨fun h => ⟨h.1, h.2⟩, fun h => ⟨h.lock, h.begins⟩⟩

instance (upgradesChallenges : ι → Bool) (s : State ι) :
    ∀ a, Decidable (Orderly upgradesChallenges s a)
  | .start _ => .isTrue trivial
  | .stop i => inferInstanceAs (Decidable (s.state i = .started → ∀ r ∈ s.running, r.inst = i))
  | .resume k ok => inferInstanceAs
      (Decidable (∀ c ∈ s.calls[k]?, OrderlyResume upgradesChallenges s c ok))

/-- No call has been made yet. -/
structure Fresh (s : State ι) : Prop where
  calls : s.calls = []
  running : s.running = []
  damage : s.damage = []

/-! ## The invariant -/

/-- What holds in every state an orderly run reaches. -/
structure Inv (s : State ι) : Prop where
  locked : ∀ r ∈ s.running, s.lockFile = true
  single : ∀ r ∈ s.running, ∀ r' ∈ s.running, r = r'
  /-- A call that can reach a run tears that run down. -/
  owns : ∀ c ∈ s.calls, ∀ r ∈ s.running, c.pc.reaches c.inst r.inst = true →
    c.target = some r.start
  unharmed : s.damage = []

theorem inv_of_fresh {s : State ι} (h : Fresh s) : Inv s := by
  have hnone : ∀ r, r ∉ s.running := by
    intro r
    rw [h.running]
    exact List.not_mem_nil
  exact ⟨fun r hr => absurd hr (hnone r), fun r hr => absurd hr (hnone r),
    fun c _ r hr => absurd hr (hnone r), h.damage⟩

theorem oneRunning_of_inv {s : State ι} (hs : Inv s) : OneRunning s where
  single := by
    rintro i j ⟨-, r, hr, rfl⟩ ⟨-, r', hr', rfl⟩
    rw [hs.single r hr r' hr']
  unharmed := hs.unharmed

section Steps

variable {upgradesChallenges : ι → Bool} {s s' : State ι} {c : Call ι} {k : Nat} {ok : Bool}

theorem reaches_of_effect {e : Effect} {i j : ι} (he : e ∈ s.effects c.pc ok)
    (hreach : e.reaches i j = true) : c.pc.reaches i j = true := by
  cases hpc : c.pc <;> simp only [State.effects, hpc, Await.reaches, List.not_mem_nil] at he ⊢
  all_goals
    rw [List.mem_singleton] at he
    subst he
    exact hreach

/-- A call that tears down whatever it can reach damages nothing. -/
theorem effects_harmless (howns : ∀ r ∈ s.running, c.pc.reaches c.inst r.inst = true →
    c.target = some r.start) : (s.effects c.pc ok).flatMap (s.damageOf c) = [] := by
  rw [List.flatMap_eq_nil_iff]
  intro e he
  rw [State.damageOf, List.map_eq_nil_iff, List.filter_eq_nil_iff]
  intro r hr hharm
  rw [decide_eq_true_eq] at hharm
  exact hharm.2 (howns r hr (reaches_of_effect he hharm.1))

/-- A run of the next state was there before, or the call has just taken the free lock. -/
theorem mem_running_update {r : Holder ι} (hr : r ∈ (s.update k c ok).running) :
    r ∈ s.running ∨
      (c.pc = .lockCommunityStart ∧ ok = true ∧ s.lockFile = false ∧ r = ⟨c.inst, k⟩) := by
  cases hpc : c.pc <;> simp only [State.update, hpc] at hr
  case unlockCommunityStart => exact .inl ((List.mem_filter.1 hr).1)
  case lockCommunityStart =>
    split at hr
    · rename_i hfree
      rcases List.mem_append.1 hr with hr | hr
      · exact .inl hr
      · exact .inr ⟨rfl, hfree.1, hfree.2, List.mem_singleton.1 hr⟩
    · exact .inl hr
  all_goals
    first
    | exact .inl hr
    | (split at hr <;> exact .inl hr)

/-- A run that is still there is locked: the call that unlocks removes its own target, and there
is no other. -/
theorem locked_update (hs : Inv s) (hc : c ∈ s.calls) {r : Holder ι}
    (hr : r ∈ (s.update k c ok).running) : (s.update k c ok).lockFile = true := by
  cases hpc : c.pc <;> simp only [State.update, hpc] at hr ⊢
  case unlockCommunityStart =>
    obtain ⟨hmem, hother⟩ := List.mem_filter.1 hr
    rw [decide_eq_true_eq] at hother
    have htarget : c.target = some r.start := hs.owns c hc r hmem (by rw [hpc]; rfl)
    exact absurd htarget.symm hother
  case lockCommunityStart =>
    split at hr
    · rename_i hfree
      rw [if_pos hfree]
    · rename_i htaken
      rw [if_neg htaken]
      exact hs.locked r hr
  all_goals
    first
    | exact hs.locked r hr
    | (split at hr <;> rename_i h <;> simp only [h, if_true] <;> exact hs.locked r hr)

/-- **A call goes on.** -/
theorem inv_resume (hs : Inv s) (hk : s.calls[k]? = some c)
    (hok : OrderlyResume upgradesChallenges s c ok) :
    Inv (s.resume upgradesChallenges k c ok) where
  locked := fun r hr => locked_update hs (List.mem_of_getElem? hk) hr
  single := by
    intro r hr r' hr'
    have hempty : s.lockFile = false → ∀ q, q ∉ s.running := by
      intro hfree q hq
      have := hs.locked q hq
      rw [hfree] at this
      exact Bool.false_ne_true this
    rcases mem_running_update hr with hr | ⟨-, -, hfree, rfl⟩
    · rcases mem_running_update hr' with hr' | ⟨-, -, hfree, -⟩
      · exact hs.single r hr r' hr'
      · exact absurd hr (hempty hfree r)
    · rcases mem_running_update hr' with hr' | ⟨-, -, -, rfl⟩
      · exact absurd hr' (hempty hfree r')
      · rfl
  owns := by
    intro d hd r hr hreach
    have hc := List.mem_of_getElem? hk
    rcases List.mem_or_eq_of_mem_set hd with hd | rfl
    · rcases mem_running_update hr with hr | ⟨hpc, hok', hfree, rfl⟩
      · exact hs.owns d hd r hr hreach
      · rw [hok.lock hpc hok' hfree d hd] at hreach
        exact absurd hreach Bool.false_ne_true
    · rcases mem_running_update hr with hr | ⟨hpc, hok', hfree, rfl⟩
      · cases hbefore : c.pc.reaches c.inst r.inst with
        | true => exact hs.owns c hc r hr hbefore
        | false => exact hok.begins r hr hbefore hreach
      · -- the call that takes the lock goes on to register its instance
        simp only [State.next, hpc, hok', hfree, and_self, if_true, Await.reaches] at hreach
        exact absurd hreach Bool.false_ne_true
  unharmed := by
    have hnone : (s.effects c.pc ok).flatMap (s.damageOf c) = [] :=
      effects_harmless (hs.owns c (List.mem_of_getElem? hk))
    rw [State.resume, hnone, List.append_nil]
    exact hs.unharmed

/-- **A new call** is at an `await` from which it reaches nothing, or is the `stop()` of the one
run there is. -/
theorem inv_call (hs : Inv s) {d : Call ι}
    (hnew : ∀ r ∈ s.running, d.pc.reaches d.inst r.inst = true → d.target = some r.start) :
    Inv { s with calls := s.calls ++ [d] } where
  __ := hs
  owns := by
    intro e he r hr hreach
    rcases List.mem_append.1 he with he | he
    · exact hs.owns e he r hr hreach
    · rw [List.mem_singleton.1 he] at hreach ⊢
      exact hnew r hr hreach

theorem runOf_eq (hs : Inv s) {r : Holder ι} (hr : r ∈ s.running) :
    s.runOf r.inst = some r.start := by
  rw [State.runOf]
  cases hfind : s.running.find? fun q => q.inst = r.inst with
  | none =>
    rw [List.find?_eq_none] at hfind
    exact absurd (decide_eq_true rfl) (hfind r hr)
  | some q =>
    rw [hs.single q (List.mem_of_find?_eq_some hfind) r hr]
    rfl

/-- **One step** keeps the invariant. -/
theorem inv_step {a : Action ι} (hs : Inv s) (hok : Orderly upgradesChallenges s a)
    (hstep : step upgradesChallenges s a = some s') : Inv s' := by
  cases a with
  | start i =>
    cases hstep
    exact inv_call hs fun r _ hreach => absurd hreach Bool.false_ne_true
  | stop i =>
    cases hstep
    refine inv_call hs fun r hr hreach => ?_
    by_cases hstate : s.state i = .started
    · rw [← hok hstate r hr]
      exact runOf_eq hs hr
    · simp only [State.stopCalled, hstate, if_false, Await.reaches] at hreach
      exact absurd hreach Bool.false_ne_true
  | resume k ok =>
    simp only [step] at hstep
    split at hstep
    · cases hstep
    · rename_i c hk
      split at hstep
      · cases hstep
      · cases hstep
        exact inv_resume hs hk (hok c hk)

/-- **One running instance.**  In every run in which the lock is taken only when no teardown can
still reach the new run, and a teardown begins only when no run but its own holds the lock, at most
one instance runs and no run is damaged. -/
theorem one_running_instance {s t : State ι} {as : List (Action ι)} (hs : Fresh s)
    (hrun : Run (step upgradesChallenges) (Orderly upgradesChallenges) s as t) : OneRunning t :=
  hrun.invariant_of (fun _ => oneRunning_of_inv) (fun _ _ _ hinv hok hstep => inv_step hinv hok hstep)
    (inv_of_fresh hs)

end Steps

/-! ## Three instances -/

/-- Every instance is stopped and no challenges need an upgrade. -/
def stopped : State Nat where
  state := fun _ => .stopped
  started := fun _ => false
  lockFile := false
  tracked := none
  calls := []
  running := []
  damage := []

theorem stopped_fresh : Fresh stopped := ⟨rfl, rfl, rfl⟩

/-- `n` steps of call `k` in which everything it waits for succeeds. -/
def goesOn (k n : Nat) : List (Action Nat) := List.replicate n (.resume k true)

/-- One instance is started and stopped, then another one is started. -/
theorem second_instance_runs : ∃ t : State Nat, t.Runs 1 ∧ OneRunning t := by
  obtain ⟨t, ht⟩ : ∃ t, execOk (step fun _ => false) (Orderly fun _ => false) stopped
      ([.start 0] ++ goesOn 0 10 ++ [.stop 0] ++ goesOn 1 8 ++ [.start 1] ++ goesOn 2 10) =
        some t := ⟨_, rfl⟩
  refine ⟨t, ?_, one_running_instance stopped_fresh (Run.of_execOk ht)⟩
  cases ht
  exact ⟨rfl, _, List.mem_singleton_self _, rfl⟩

/-- **A failed start lets a third instance in.**  Three instances pass the check; the first takes
the lock and runs; the second fails on the lock, and its teardown unlocks the path; the third takes
the lock beside the first. -/
theorem failed_start_unlocks :
    ¬ ∀ (s t : State Nat) (as : List (Action Nat)), Fresh s →
      Run (step fun _ => false) anyStep s as t → OneRunning t := by
  intro h
  obtain ⟨t, ht⟩ : ∃ t, exec (step fun _ => false) stopped
      ([.start 0, .start 1, .start 2] ++ goesOn 0 2 ++ goesOn 1 2 ++ goesOn 2 2 ++ goesOn 0 8 ++
        goesOn 1 8 ++ goesOn 2 8) = some t := ⟨_, rfl⟩
  have hone := (h stopped t _ stopped_fresh (Run.of_exec ht)).single 0 2
  cases ht
  exact absurd (hone ⟨rfl, ⟨0, 0⟩, by decide, rfl⟩ ⟨rfl, ⟨2, 2⟩, by decide, rfl⟩) (by decide)

end StartStop
end Pkc

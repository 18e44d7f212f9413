import Mathlib.Logic.Function.Basic
import Pkc.Library.Runs
import Mathlib.Tactic.Spread

/-!
# The runs of a community list

A community list is published, updated, loaded once and stopped, in any order and from inside the
events that it emits.  What `stop` has to reach is kept on the instance: the controller of the run
that publishes or updates, and that of the last load.

* `Run` is one publish, update or load, `Phase` the await or the event that it stands at, and
  `frames` are the events whose listeners have not returned.
* `resume` and `listenersReturned` are what a run does next, `apply` what that changes.
* `Inv` is what holds in every state, `Ok` the guard: nothing is stopped while it starts, nothing is
  started from the last error of a run that has been stopped, and no load begins beside another that
  has no run.
* `Sound` is what is wanted: a stopped run changes nothing, and the state, the set of the lists that
  are updating and the record are those of the run that is neither finished nor stopped.
* `runs_apart` says that this holds in every state, `not_apart` what the guard is for.
-/

set_option autoImplicit false

namespace Pkc
namespace CommunityList

open Runs

/-! ## Runs -/

structure Record where
  json : String
  /-- The domain of the author, if there is one to resolve. -/
  authorName : Option String
deriving DecidableEq, Repr

/-- The code around. -/
structure Env where
  /-- The list has a signer and something to sign. -/
  signer : Bool
  pkcRpcClient : Bool
  /-- `calculateIpfsCidV0`. -/
  cidOf : Record → String
  resolveAuthorNames : Bool

inductive ListState
  | stopped
  | publishing
  | updating
deriving DecidableEq, Repr

inductive Event
  | statechange (state : ListState)
  | update
  | error
deriving DecidableEq, Repr

inductive Job
  | publish
  | update
  /-- `outer` is the run that it belongs to. -/
  | load (cid : String) (outer : Option Nat)
deriving DecidableEq, Repr

inductive Phase
  /-- The listeners of its `statechange` have not returned. -/
  | starting
  | signing
  | sizing (record : Record)
  | adding (record : Record)
  /-- The server has added it. -/
  | comparing (record : Record) (cid : String)
  /-- Until the next macrotask. -/
  | waiting
  | loading (load : Nat)
  /-- The listeners of `update` have not returned. -/
  | showing
  | resolving
  | delaying
  | verdictShown
  /-- There is nothing left to watch. -/
  | settled
  /-- The listeners of the last `error` have not returned. -/
  | failing
  | fetching
  /-- The listeners of an `error` after which it is tried again have not returned. -/
  | erring
  | backoff
  | loaded (record : Record)
  | failed
  | ended (thrown : Bool)
deriving DecidableEq, Repr

structure Run where
  job : Job
  aborted : Bool
  phase : Phase
  /-- History: `stop` was called before it ended. -/
  stopped : Bool
deriving DecidableEq, Repr

def Phase.isEnded : Phase → Bool
  | .ended _ => true
  | _ => false

/-- It sets the state. -/
def Run.isOwner (run : Run) : Bool :=
  match run.job with
  | .load _ _ => false
  | _ => true

/-- Neither finished nor stopped. -/
def Run.live (run : Run) : Bool := !run.phase.isEnded && !run.stopped

def Job.state : Job → ListState
  | .publish => .publishing
  | .update => .updating
  | .load _ _ => .stopped

structure State where
  /-- `raw.communityList`. -/
  record : Option Record
  cid : Option String
  /-- `author.nameResolved`. -/
  nameResolved : Option Bool
  state : ListState
  stopAbortController : Option Nat
  loadingAbortController : Option Nat
  /-- The list is in `pkc._updatingCommunityLists`. -/
  isUpdatingCommunityList : Bool
  runs : Nat → Run
  count : Nat
  /-- Whose listeners are running, the innermost first. -/
  frames : List Nat
  events : List Event
  /-- History: what has been published or verified. -/
  genuine : List (Record × String)

def init (cid : Option String) : State where
  record := none
  cid := cid
  nameResolved := none
  state := .stopped
  stopAbortController := none
  loadingAbortController := none
  isUpdatingCommunityList := false
  runs := fun _ => ⟨.publish, false, .ended false, false⟩
  count := 0
  frames := []
  events := []
  genuine := []

def State.setPhase (s : State) (i : Nat) (phase : Phase) : State :=
  { s with runs := Function.update s.runs i { s.runs i with phase := phase } }

/-- Emits only if the state is new. -/
def setState (state : ListState) (s : State) : State :=
  { s with
    state := state
    events := if s.state = state then s.events else s.events ++ [.statechange state] }

def State.emit (s : State) (i : Nat) (event : Event) : State :=
  { s with events := s.events ++ [event], frames := i :: s.frames }

def initFromWireRecord (record : Record) (cid : String) (cached : Option Bool) (s : State) :
    State :=
  { s with
    record := some record
    cid := some cid
    nameResolved :=
      -- a verdict that is known stays
      s.nameResolved.orElse fun _ => if record.authorName.isSome then cached else none }

/-! ## Calls -/

/-- A run that sets the state, up to the listeners of `statechange`. -/
def startRun (job : Job) (s : State) : State :=
  let s := setState job.state s
  { s with
    runs := Function.update s.runs s.count ⟨job, false, .starting, false⟩
    count := s.count + 1
    frames := s.count :: s.frames }

def publish (env : Env) (s : State) : State :=
  if !env.signer then s
  else if s.state ≠ .stopped then s
  else startRun .publish s

def update (s : State) : State :=
  if s.state ≠ .stopped then s
  else if s.cid.isNone then s
  else startRun .update s

/-- `_loadCommunityListIpfsWithRetries` up to the first await. -/
def startLoad (cid : String) (outer : Option Nat) (s : State) : State :=
  { s with
    loadingAbortController := some s.count
    runs := Function.update s.runs s.count ⟨.load cid outer, false, .fetching, false⟩
    count := s.count + 1 }

def load (s : State) : State :=
  match s.record, s.cid with
  | none, some cid => startLoad cid none s
  | _, _ => s

/-- The abort reaches the runs that have one of the controllers, and the loads of such a run. -/
def State.reaches (s : State) (i : Nat) : Bool :=
  s.stopAbortController = some i || s.loadingAbortController = some i ||
    match (s.runs i).job with
    | .load _ (some outer) => s.stopAbortController = some outer
    | _ => false

def stop (s : State) : State :=
  setState .stopped { s with
    isUpdatingCommunityList := false
    runs := fun i =>
      { s.runs i with
        aborted := (s.runs i).aborted || s.reaches i
        stopped := (s.runs i).stopped || !(s.runs i).phase.isEnded } }

/-! ## What a run does next -/

/-- What comes back from an await. -/
inductive Answer
  | done
  | signed (record : Option Record)
  | sized (ok : Bool)
  | added (cid : Option String)
  | verified (record : Record)
  | fetchFailed (retriable : Bool)
  | verdict (verdict : Option Bool)
deriving DecidableEq, Repr

inductive Outcome
  | goOn (phase : Phase) (genuine : Option (Record × String))
  /-- The controller is there and the run can be stopped. -/
  | start (phase : Phase)
  | load (cid : String)
  | emitError (phase : Phase)
  | emitUpdate (phase : Phase) (nameResolved : Option Bool)
  /-- A load has a record. -/
  | show (record : Record) (cid : String)
  /-- A load is over. -/
  | settle (thrown : Bool)
  | publishEnds (published : Option (Record × String))
  | stopItself

/-- `_settleAuthorNameResolvedIfNeeded`, up to the first await. -/
def settlePhase (env : Env) (s : State) : Phase :=
  if s.record.any (fun record => record.authorName.isSome) && env.resolveAuthorNames then .resolving
  else .settled

/-- `publish`, after an await. -/
def resumePublish (env : Env) (run : Run) (answer : Answer) : Option Outcome :=
  match run.phase, answer with
  | .signing, .signed record =>
    match record with
    | some record => some (.goOn (.sizing record) none)
    | none => some (.publishEnds none)
  | .sizing record, .sized ok =>
    some (if ok && !run.aborted then .goOn (.adding record) none else .publishEnds none)
  | .adding record, .added cid =>
    match cid with
    | some cid =>
      if env.pkcRpcClient then some (.goOn (.comparing record cid) none)
      else some (.publishEnds (if run.aborted then none else some (record, cid)))
    | none => some (.publishEnds none)
  | .comparing record cid, .done =>
    some (.publishEnds
      (if env.cidOf record = cid && !run.aborted then some (record, cid) else none))
  | _, _ => none

/-- `_runUpdateLoop`, after an await. -/
def resumeUpdate (env : Env) (s : State) (run : Run) (answer : Answer) : Option Outcome :=
  match run.phase, answer with
  | .waiting, .done =>
    if run.aborted then some (.goOn (.ended false) none)
    else
      match s.record, s.cid with
      | none, some cid => some (.load cid)
      | none, none => some (.emitError .failing)
      | some _, _ => some (.emitUpdate .showing none)
  | .loading load, .done =>
    match (s.runs load).phase with
    | .ended thrown =>
      if run.aborted then some (.goOn (.ended false) none)
      else if thrown then some (.emitError .failing)
      else some (.goOn (settlePhase env s) none)
    | _ => none
  | .resolving, .verdict verdict =>
    if run.aborted then some (.goOn (.ended false) none)
    else
      match verdict with
      | some verdict => some (.emitUpdate .verdictShown (some verdict))
      | none => some (.goOn .delaying none)
  | .delaying, .done =>
    some (.goOn (if run.aborted then .ended false else .resolving) none)
  | .settled, .done =>
    some (if run.aborted then .goOn (.ended false) none else .stopItself)
  | _, _ => none

/-- A load, after an await. -/
def resumeLoad (cid : String) (run : Run) (answer : Answer) : Option Outcome :=
  match run.phase, answer with
  | .fetching, .verified record =>
    some (.goOn (.loaded record) (some (record, cid)))
  | .fetching, .fetchFailed retriable =>
    some (if run.aborted || !retriable then .goOn .failed none else .emitError .erring)
  | .fetching, .done => if run.aborted then some (.settle true) else none
  | .backoff, .done => some (if run.aborted then .settle true else .goOn .fetching none)
  | .loaded record, .done => some (if run.aborted then .settle false else .show record cid)
  | .failed, .done => some (.settle true)
  | _, _ => none

def resume (env : Env) (s : State) (run : Run) (answer : Answer) : Option Outcome :=
  match run.job with
  | .publish => resumePublish env run answer
  | .update => resumeUpdate env s run answer
  | .load cid _ => resumeLoad cid run answer

/-- What a run does when the listeners of its event have returned. -/
def listenersReturned (env : Env) (s : State) (run : Run) : Option Outcome :=
  match run.job, run.phase with
  | .publish, .starting => some (.start .signing)
  | .update, .starting => some (.start .waiting)
  | .update, .showing =>
    some (.goOn (if run.aborted then .ended false else settlePhase env s) none)
  | .update, .verdictShown => some (.goOn .settled none)
  -- whether it has been stopped in the meantime is not looked at
  | .update, .failing => some .stopItself
  | .load _ _, .erring => some (.goOn .backoff none)
  | .load _ _, .showing => some (.settle false)
  | _, _ => none

/-- What has been published is what the list holds. -/
def adopt (published : Option (Record × String)) (cached : Option Bool) (s : State) : State :=
  match published with
  | some (record, cid) =>
    { initFromWireRecord record cid cached s with genuine := (record, cid) :: s.genuine }
  | none => s

def apply (i : Nat) (cached : Option Bool) (s : State) : Outcome → State
  | .goOn phase genuine => { s.setPhase i phase with genuine := genuine.toList ++ s.genuine }
  | .start phase =>
    { s.setPhase i phase with
      stopAbortController := some i
      isUpdatingCommunityList := s.isUpdatingCommunityList || (s.runs i).job = .update }
  | .load cid => (startLoad cid (some i) s).setPhase i (.loading s.count)
  | .emitError phase => (s.setPhase i phase).emit i .error
  | .emitUpdate phase nameResolved =>
    ({ s.setPhase i phase with nameResolved := nameResolved.or s.nameResolved }).emit i .update
  | .show record cid =>
    ((initFromWireRecord record cid cached s).setPhase i .showing).emit i .update
  | .settle thrown =>
    { s.setPhase i (.ended thrown) with
      loadingAbortController :=
        if s.loadingAbortController = some i then none else s.loadingAbortController }
  | .publishEnds published =>
    let s := (adopt published cached s).setPhase i (.ended published.isNone)
    -- only the run that still owns the controller
    if s.stopAbortController = some i then setState .stopped s else s
  | .stopItself => (stop s).setPhase i (.ended false)

inductive Action
  | publish
  | update
  | stop
  | load
  /-- The signal of whoever called for a load. -/
  | abortLoad (i : Nat)
  | listenersReturned
  | resume (i : Nat) (answer : Answer) (cached : Option Bool)
deriving DecidableEq, Repr

/-- Calls may come at any time, a run goes on when nobody's listeners are running. -/
def step (env : Env) (s : State) : Action → Option State
  | .publish => some (publish env s)
  | .update => some (update s)
  | .stop => some (stop s)
  | .load => some (load s)
  | .abortLoad i =>
    match (s.runs i).job with
    | .load _ none =>
      some { s with runs := Function.update s.runs i { s.runs i with aborted := true } }
    | _ => none
  | .listenersReturned =>
    match s.frames with
    | [] => none
    | i :: frames =>
      (listenersReturned env s (s.runs i)).map (apply i none { s with frames := frames })
  | .resume i answer cached =>
    if s.frames = [] then (resume env s (s.runs i) answer).map (apply i cached s) else none

/-! ## What is wanted -/

/-- The run that takes the step. -/
def actor (s : State) : Action → Option Nat
  | .listenersReturned => s.frames.head?
  | .resume i _ _ => some i
  | _ => none

/-- Nothing has changed that anybody sees, nothing was emitted or begun, and no other run that has
not ended was touched. -/
structure Untouched (i : Nat) (s s' : State) : Prop where
  record : s'.record = s.record
  cid : s'.cid = s.cid
  nameResolved : s'.nameResolved = s.nameResolved
  state : s'.state = s.state
  stopAbortController : s'.stopAbortController = s.stopAbortController
  isUpdatingCommunityList : s'.isUpdatingCommunityList = s.isUpdatingCommunityList
  events : s'.events = s.events
  count : s'.count = s.count
  others : ∀ j, j ≠ i → (s.runs j).phase.isEnded = false → s'.runs j = s.runs j

structure Sound (env : Env) (s : State) : Prop where
  quiet : ∀ a i s', actor s a = some i → (s.runs i).stopped → step env s a = some s' →
    Untouched i s s'
  /-- The state is that of a run which is neither finished nor stopped. -/
  state : ∀ state, state ≠ .stopped →
    (s.state = state ↔ ∃ i, (s.runs i).live ∧ (s.runs i).job.state = state)
  /-- There is one such run. -/
  only : ∀ i j, (s.runs i).isOwner → (s.runs i).live → (s.runs j).isOwner → (s.runs j).live → i = j
  /-- The list is known to be updating from when the listeners of the start have returned. -/
  listed : s.isUpdatingCommunityList ↔ s.state = .updating ∧ ∀ i, (s.runs i).phase ≠ .starting
  held : ∀ record, s.record = some record →
    ∃ cid, s.cid = some cid ∧ (record, cid) ∈ s.genuine

/-- The call begins something. -/
def Begins (env : Env) (s : State) : Action → Prop
  | .publish => env.signer ∧ s.state = .stopped
  | .update => s.cid.isSome ∧ s.state = .stopped
  | .load => s.record = none ∧ s.cid.isSome
  | _ => False

def BeginsLoad (s : State) : Action → Prop
  | .load => s.record = none ∧ s.cid.isSome
  | .resume i _ _ => (s.runs i).job = .update ∧ (s.runs i).phase = .waiting ∧
    (s.runs i).aborted = false ∧ s.record = none
  | _ => False

structure Ok (env : Env) (s : State) (a : Action) : Prop where
  /-- Nothing is stopped while it starts. -/
  started : a = .stop → ∀ i, (s.runs i).phase ≠ .starting
  /-- Nothing is begun from the last error of a run that has been stopped. -/
  begun : Begins env s a → ∀ i, (s.runs i).phase = .failing → (s.runs i).stopped = false
  /-- No load begins beside one that has no run. -/
  reachable : BeginsLoad s a → ∀ i cid, (s.runs i).job = .load cid none →
    (s.runs i).phase.isEnded ∨ (s.runs i).aborted

namespace Ok

variable {env : Env} {s : State}

theorem of_stop (h : ∀ i, (s.runs i).phase ≠ .starting) : Ok env s .stop where
  started _ := h
  begun hbegins := hbegins.elim
  reachable hbegins := hbegins.elim

theorem of_update (h : ∀ i, (s.runs i).phase = .failing → (s.runs i).stopped = false) :
    Ok env s .update where
  started hstop := by cases hstop
  begun _ := h
  reachable hbegins := hbegins.elim

theorem of_listenersReturned : Ok env s .listenersReturned where
  started hstop := by cases hstop
  begun hbegins := hbegins.elim
  reachable hbegins := hbegins.elim

theorem of_resume {i : Nat} {answer : Answer} {cached : Option Bool}
    (h : BeginsLoad s (.resume i answer cached) → ∀ j cid, (s.runs j).job = .load cid none →
      (s.runs j).phase.isEnded ∨ (s.runs j).aborted) : Ok env s (.resume i answer cached) where
  started hstop := by cases hstop
  begun hbegins := hbegins.elim
  reachable := h

end Ok

/-! ## Every state -/

theorem live_iff {run : Run} : run.live ↔ run.phase.isEnded = false ∧ run.stopped = false := by
  simp [Run.live]

theorem live_eq_false_iff {run : Run} :
    run.live = false ↔ (run.phase.isEnded = false → run.stopped = true) := by
  cases hended : run.phase.isEnded with
  | _ => simp [Run.live, hended]

/-- To stop it again changes nothing. -/
theorem Run.stop_of_stopped (run : Run) (haborted : run.aborted) (hstopped : run.stopped) :
    { run with aborted := true, stopped := true } = run := by
  obtain ⟨job, aborted, phase, stopped⟩ := run
  obtain rfl : aborted = true := haborted
  obtain rfl : stopped = true := hstopped
  rfl

section Steps

variable {env : Env} {s s' : State} {i : Nat} {p : Phase}

@[simp] theorem setPhase_runs_self : (s.setPhase i p).runs i = { s.runs i with phase := p } :=
  Function.update_self _ _ _

theorem setPhase_runs_of_ne {j : Nat} (h : j ≠ i) : (s.setPhase i p).runs j = s.runs j :=
  Function.update_of_ne h _ _

/-- The controller and the state are those of the run that is neither finished nor stopped. -/
structure Controlled (s : State) : Prop where
  current : ∀ i, (s.runs i).isOwner → (s.runs i).live → (s.runs i).phase ≠ .starting →
    s.stopAbortController = some i
  state : ∀ i, (s.runs i).isOwner → (s.runs i).live → s.state = (s.runs i).job.state
  only : ∀ i j, (s.runs i).isOwner → (s.runs i).live → (s.runs j).isOwner → (s.runs j).live → i = j
  owned : s.state ≠ .stopped → ∃ i, (s.runs i).isOwner ∧ (s.runs i).live
  listed : s.isUpdatingCommunityList ↔
    ∃ i, (s.runs i).live ∧ (s.runs i).job = .update ∧ (s.runs i).phase ≠ .starting

/-- What holds in every state. -/
structure Inv (s : State) : Prop extends Controlled s where
  aborted : ∀ i, (s.runs i).stopped → (s.runs i).aborted
  stopped : ∀ i, (s.runs i).isOwner → (s.runs i).aborted → (s.runs i).live = false
  starting : ∀ i, (s.runs i).phase = .starting →
    (s.runs i).isOwner ∧ (s.runs i).live ∧ s.frames.head? = some i
  /-- When a run that has been stopped is about to stop itself, there is nothing else to stop. -/
  failing : ∀ i, (s.runs i).phase = .failing → (s.runs i).isOwner ∧ i ∈ s.frames ∧
    ((s.runs i).stopped → ∀ j, (s.runs j).live = false)
  /-- `stop` reaches a load that has no run, -/
  alone : ∀ i cid, (s.runs i).job = .load cid none → (s.runs i).phase.isEnded = false →
    (s.runs i).aborted = false → s.loadingAbortController = some i
  /-- and that of a run by way of the run. -/
  inner : ∀ i cid r, (s.runs i).job = .load cid (some r) → (s.runs i).phase.isEnded = false →
    (s.runs i).aborted = false →
      (s.runs r).job = .update ∧ (s.runs r).live ∧ (s.runs r).phase = .loading i
  fresh : ∀ i, s.count ≤ i → (s.runs i).phase.isEnded
  held : ∀ record, s.record = some record →
    ∃ cid, s.cid = some cid ∧ (record, cid) ∈ s.genuine
  verified : ∀ i record cid outer, (s.runs i).phase = .loaded record →
    (s.runs i).job = .load cid outer → (record, cid) ∈ s.genuine

namespace Inv

theorem init (cid : Option String) : Inv (init cid) where
  aborted _ hstopped := by cases hstopped
  stopped _ _ haborted := by cases haborted
  current _ _ hlive := by cases hlive
  state _ _ hlive := by cases hlive
  only _ _ _ hlive := by cases hlive
  owned hstate := absurd rfl hstate
  listed := by simp [CommunityList.init, Run.live, Phase.isEnded]
  starting _ hphase := by cases hphase
  failing _ hphase := by cases hphase
  alone _ _ hjob := by cases hjob
  inner _ _ _ hjob := by cases hjob
  fresh _ _ := rfl
  held _ hrecord := by cases hrecord
  verified _ _ _ _ hphase := by cases hphase

/-- Everything has ended or been stopped. -/
theorem of_no_live (hlive : ∀ i, (s.runs i).live = false)
    (haborted : ∀ i, (s.runs i).stopped → (s.runs i).aborted) (hstate : s.state = .stopped)
    (hlisted : s.isUpdatingCommunityList = false) (hstarting : ∀ i, (s.runs i).phase ≠ .starting)
    (hfailing : ∀ i, (s.runs i).phase = .failing → (s.runs i).isOwner ∧ i ∈ s.frames)
    (hfresh : ∀ i, s.count ≤ i → (s.runs i).phase.isEnded)
    (hheld : ∀ record, s.record = some record → ∃ cid, s.cid = some cid ∧ (record, cid) ∈ s.genuine)
    (hverified : ∀ i record cid outer, (s.runs i).phase = .loaded record →
      (s.runs i).job = .load cid outer → (record, cid) ∈ s.genuine) : Inv s := by
  have hnot : ∀ i, ¬ (s.runs i).live := fun i hi => by simp [hlive i] at hi
  have hopen : ∀ i, (s.runs i).phase.isEnded = false → (s.runs i).aborted = false → False := by
    intro i hended hnotAborted
    rw [haborted i (live_eq_false_iff.1 (hlive i) hended)] at hnotAborted
    cases hnotAborted
  constructor
  case aborted => exact haborted
  case stopped => exact fun i _ _ => hlive i
  case toControlled =>
    refine ⟨fun i _ hi => absurd hi (hnot i), fun i _ hi => absurd hi (hnot i),
      fun i _ _ hi => absurd hi (hnot i), fun h => absurd hstate h, ?_⟩
    refine iff_of_false (by simp [hlisted]) ?_
    rintro ⟨i, hi, -⟩
    exact hnot i hi
  case starting => exact fun i hi => absurd hi (hstarting i)
  case failing => exact fun i hi => ⟨(hfailing i hi).1, (hfailing i hi).2, fun _ => hlive⟩
  case alone => exact fun i _ _ hended haborted => (hopen i hended haborted).elim
  case inner => exact fun i _ _ _ hended haborted => (hopen i hended haborted).elim
  case fresh => exact hfresh
  case held => exact hheld
  case verified => exact hverified

/-- `stop` reaches whatever has not ended. -/
theorem aborted_stop (h : Inv s) (hstarting : ∀ i, (s.runs i).phase ≠ .starting) (i : Nat)
    (hended : (s.runs i).phase.isEnded = false) : (s.runs i).aborted || s.reaches i := by
  rw [Bool.or_eq_true]
  by_cases hstopped : (s.runs i).stopped
  · exact .inl (h.aborted i hstopped)
  have hlive : (s.runs i).live := live_iff.2 ⟨hended, by simpa using hstopped⟩
  by_cases haborted : (s.runs i).aborted
  · exact .inl haborted
  rw [Bool.not_eq_true] at haborted
  refine .inr ?_
  cases hjob : (s.runs i).job with
  | load cid outer =>
    cases outer with
    | none => simp [State.reaches, h.alone i cid hjob hended haborted]
    | some r =>
      obtain ⟨hr, hrlive, hphase⟩ := h.inner i cid r hjob hended haborted
      have hcurrent := h.current r (by simp [Run.isOwner, hr]) hrlive (by simp [hphase])
      simp [State.reaches, hjob, hcurrent]
  | _ =>
    have hcurrent := h.current i (by simp [Run.isOwner, hjob]) hlive (hstarting i)
    simp [State.reaches, hcurrent]

theorem stop (h : Inv s) (hstarting : ∀ i, (s.runs i).phase ≠ .starting) : Inv (stop s) := by
  refine of_no_live (fun i => live_eq_false_iff.2 fun hended => ?_) (fun i hstopped => ?_) rfl rfl
    hstarting (fun i hphase => ?_) h.fresh h.held h.verified
  · simp only [CommunityList.stop, setState] at hended ⊢
    rw [hended, Bool.not_false, Bool.or_true]
  · simp only [CommunityList.stop, setState] at hstopped ⊢
    cases hended : (s.runs i).phase.isEnded with
    | true =>
      rw [hended, Bool.not_true, Bool.or_false] at hstopped
      rw [h.aborted i hstopped, Bool.true_or]
    | false => exact h.aborted_stop hstarting i hended
  · exact ⟨(h.failing i hphase).1, (h.failing i hphase).2.1⟩

end Inv

/-- A run goes from one await, or one event, to the next. -/
structure Moves (i : Nat) (p : Phase) (s s' : State) : Prop where
  runs : s'.runs = (s.setPhase i p).runs
  wasOpen : (s.runs i).phase.isEnded = false
  toStart : p ≠ .starting
  noStart : ∀ j, j ≠ i → (s.runs j).phase ≠ .starting
  loading : ∀ l, (s.runs i).phase = .loading l → (s.runs l).phase.isEnded
  failing : p = .failing → (s.runs i).isOwner ∧ i ∈ s'.frames ∧ (s.runs i).stopped = false
  frames : ∀ j, j ≠ i → j ∈ s.frames → j ∈ s'.frames
  others : ∀ j, j ≠ i → s.loadingAbortController = some j → s'.loadingAbortController = some j
  own : p.isEnded = false → s'.loadingAbortController = s.loadingAbortController
  count : s'.count = s.count
  genuine : s.genuine ⊆ s'.genuine
  held : ∀ record, s'.record = some record →
    ∃ cid, s'.cid = some cid ∧ (record, cid) ∈ s'.genuine
  verified : ∀ record cid outer, p = .loaded record → (s.runs i).job = .load cid outer →
    (record, cid) ∈ s'.genuine

namespace Moves

theorem run (m : Moves i p s s') : s'.runs i = { s.runs i with phase := p } := by
  rw [m.runs, setPhase_runs_self]

theorem run_of_ne (m : Moves i p s s') {j : Nat} (h : j ≠ i) : s'.runs j = s.runs j := by
  rw [m.runs, setPhase_runs_of_ne h]

/-- Only the phase of the run is new. -/
theorem same (m : Moves i p s s') (j : Nat) : (s'.runs j).job = (s.runs j).job ∧
    (s'.runs j).aborted = (s.runs j).aborted ∧ (s'.runs j).stopped = (s.runs j).stopped := by
  by_cases hj : j = i
  · subst hj
    rw [m.run]
    exact ⟨rfl, rfl, rfl⟩
  · rw [m.run_of_ne hj]
    exact ⟨rfl, rfl, rfl⟩

theorem isOwner (m : Moves i p s s') (j : Nat) : (s'.runs j).isOwner = (s.runs j).isOwner := by
  rw [Run.isOwner, Run.isOwner, (m.same j).1]

theorem ended_of_ended (m : Moves i p s s') {j : Nat} (h : (s'.runs j).phase.isEnded = false) :
    (s.runs j).phase.isEnded = false := by
  by_cases hj : j = i
  · rw [hj]
    exact m.wasOpen
  · rwa [m.run_of_ne hj] at h

theorem live_of_live (m : Moves i p s s') {j : Nat} (h : (s'.runs j).live) : (s.runs j).live := by
  rw [live_iff] at h ⊢
  exact ⟨m.ended_of_ended h.1, (m.same j).2.2 ▸ h.2⟩

end Moves

theorem Inv.of_moves (h : Inv s) (m : Moves i p s s') (hcontrolled : Controlled s') : Inv s' := by
  constructor
  case toControlled => exact hcontrolled
  case aborted =>
    intro j hstopped
    rw [(m.same j).2.2] at hstopped
    rw [(m.same j).2.1]
    exact h.aborted j hstopped
  case stopped =>
    intro j howner haborted
    rw [m.isOwner] at howner
    rw [(m.same j).2.1] at haborted
    by_contra hlive
    rw [Bool.not_eq_false] at hlive
    have hnot := h.stopped j howner haborted
    rw [m.live_of_live hlive] at hnot
    cases hnot
  case starting =>
    intro j hphase
    by_cases hj : j = i
    · rw [hj, m.run] at hphase
      exact absurd hphase m.toStart
    · rw [m.run_of_ne hj] at hphase
      exact absurd hphase (m.noStart j hj)
  case failing =>
    intro j hphase
    by_cases hj : j = i
    · subst hj
      rw [m.run] at hphase
      obtain ⟨howner, hmem, hnot⟩ := m.failing hphase
      refine ⟨(m.isOwner j).trans howner, hmem, fun hstopped => ?_⟩
      rw [(m.same j).2.2, hnot] at hstopped
      cases hstopped
    · rw [m.run_of_ne hj] at hphase ⊢
      obtain ⟨howner, hmem, hnone⟩ := h.failing j hphase
      refine ⟨howner, m.frames j hj hmem, fun hstopped k => ?_⟩
      by_contra hlive
      rw [Bool.not_eq_false] at hlive
      have hnot := hnone hstopped k
      rw [m.live_of_live hlive] at hnot
      cases hnot
  case alone =>
    intro j cid hjob hended haborted
    rw [(m.same j).1] at hjob
    rw [(m.same j).2.1] at haborted
    have hmirror := h.alone j cid hjob (m.ended_of_ended hended) haborted
    by_cases hj : j = i
    · subst hj
      rw [m.run] at hended
      rw [m.own hended, hmirror]
    · exact m.others j hj hmirror
  case inner =>
    intro j cid r hjob hended haborted
    rw [(m.same j).1] at hjob
    rw [(m.same j).2.1] at haborted
    obtain ⟨hr, hlive, hphase⟩ := h.inner j cid r hjob (m.ended_of_ended hended) haborted
    -- a run goes on only when its load is over
    have hne : r ≠ i := by
      rintro rfl
      have hover := m.loading j hphase
      rw [m.ended_of_ended hended] at hover
      cases hover
    rw [m.run_of_ne hne]
    exact ⟨hr, hlive, hphase⟩
  case fresh =>
    intro j hle
    rw [m.count] at hle
    have hj : j ≠ i := by
      rintro rfl
      have hopen := m.wasOpen
      rw [h.fresh j hle] at hopen
      cases hopen
    rw [m.run_of_ne hj]
    exact h.fresh j hle
  case held => exact m.held
  case verified =>
    intro j record cid outer hphase hjob
    rw [(m.same j).1] at hjob
    by_cases hj : j = i
    · subst hj
      rw [m.run] at hphase
      exact m.verified record cid outer hphase hjob
    · rw [m.run_of_ne hj] at hphase
      exact m.genuine (h.verified j record cid outer hphase hjob)

/-- A step that leaves the controller and the state alone. -/
structure Keeps (i : Nat) (p : Phase) (s s' : State) : Prop extends Moves i p s s' where
  fromStart : (s.runs i).phase ≠ .starting
  keepsOwner : (s.runs i).isOwner → (s.runs i).live → p.isEnded = false
  stopAbortController : s'.stopAbortController = s.stopAbortController
  state : s'.state = s.state
  isUpdatingCommunityList : s'.isUpdatingCommunityList = s.isUpdatingCommunityList

theorem Keeps.live_of_owner (m : Keeps i p s s') {j : Nat} (howner : (s.runs j).isOwner)
    (h : (s.runs j).live) : (s'.runs j).live := by
  by_cases hj : j = i
  · subst hj
    rw [live_iff, m.run]
    exact ⟨m.keepsOwner howner h, (live_iff.1 h).2⟩
  · rwa [m.run_of_ne hj]

theorem Keeps.noStart_left (m : Keeps i p s s') (j : Nat) : (s.runs j).phase ≠ .starting := by
  by_cases hj : j = i
  · rw [hj]
    exact m.fromStart
  · exact m.noStart j hj

theorem Keeps.noStart_right (m : Keeps i p s s') (j : Nat) : (s'.runs j).phase ≠ .starting := by
  by_cases hj : j = i
  · rw [hj, m.run]
    exact m.toStart
  · rw [m.run_of_ne hj]
    exact m.noStart j hj

theorem Inv.keeps (h : Inv s) (m : Keeps i p s s') : Inv s' := by
  refine h.of_moves m.toMoves ?_
  constructor
  case current =>
    intro j howner hlive _
    rw [m.isOwner] at howner
    rw [m.stopAbortController]
    exact h.current j howner (m.live_of_live hlive) (m.noStart_left j)
  case state =>
    intro j howner hlive
    rw [m.isOwner] at howner
    rw [m.state, (m.same j).1]
    exact h.state j howner (m.live_of_live hlive)
  case only =>
    intro j k hj hjlive hk hklive
    rw [m.isOwner] at hj hk
    exact h.only j k hj (m.live_of_live hjlive) hk (m.live_of_live hklive)
  case owned =>
    intro hstate
    rw [m.state] at hstate
    obtain ⟨j, howner, hlive⟩ := h.owned hstate
    exact ⟨j, (m.isOwner j).trans howner, m.live_of_owner howner hlive⟩
  case listed =>
    rw [m.isUpdatingCommunityList, h.listed]
    constructor
    · rintro ⟨j, hlive, hjob, -⟩
      refine ⟨j, m.live_of_owner (by simp [Run.isOwner, hjob]) hlive, ?_, m.noStart_right j⟩
      rw [(m.same j).1, hjob]
    · rintro ⟨j, hlive, hjob, -⟩
      rw [(m.same j).1] at hjob
      exact ⟨j, m.live_of_live hlive, hjob, m.noStart_left j⟩

/-! ## What a run may do -/

/-- The run has begun and is not over, and does not wait for a load that is not over. -/
structure Stands (s : State) (i : Nat) : Prop where
  wasOpen : (s.runs i).phase.isEnded = false
  fromStart : (s.runs i).phase ≠ .starting
  loading : ∀ l, (s.runs i).phase = .loading l → (s.runs l).phase.isEnded

theorem Stands.of_phase (hphase : (s.runs i).phase = p) (hopen : p.isEnded = false)
    (hstart : p ≠ .starting) (hloading : ∀ l, p = .loading l → (s.runs l).phase.isEnded) :
    Stands s i := by
  subst hphase
  exact ⟨hopen, hstart, hloading⟩

/-- A run that has stood gets its next phase, and its frame may be gone. -/
theorem Moves.of_phase {frames : List Nat} (h : Inv s) (hstands : Stands s i)
    (hstarting : ∀ j, (s.runs j).phase ≠ .starting)
    (hframes : ∀ j, j ≠ i → j ∈ s.frames → j ∈ frames) (hstart : p ≠ .starting)
    (hfailing : p ≠ .failing) (hloaded : ∀ record, p ≠ .loaded record) :
    Moves i p s (({ s with frames := frames } : State).setPhase i p) where
  __ := hstands
  runs := rfl
  toStart := hstart
  noStart j _ := hstarting j
  failing hfail := absurd hfail hfailing
  frames := hframes
  others _ _ hmirror := hmirror
  own _ := rfl
  count := rfl
  genuine := List.Subset.refl _
  held := h.held
  verified record _ _ hphase := absurd hphase (hloaded record)

/-- What an outcome is, for run `i`. -/
def Outcome.Fits (s : State) (i : Nat) : Outcome → Prop
  | .goOn p genuine => p ≠ .starting ∧ p ≠ .failing ∧
    ((s.runs i).isOwner → (s.runs i).live → p.isEnded = false) ∧
    ∀ record cid outer, p = .loaded record → (s.runs i).job = .load cid outer →
      (record, cid) ∈ genuine.toList
  | .start _ => False
  | .load _ => (s.runs i).job = .update ∧ (s.runs i).phase = .waiting ∧
    (s.runs i).aborted = false ∧ s.record = none
  | .emitError p => p = .failing ∧ (s.runs i).isOwner ∧ (s.runs i).aborted = false ∨ p = .erring
  | .emitUpdate p _ => p = .showing ∨ p = .verdictShown
  | .show record cid => (record, cid) ∈ s.genuine
  | .settle _ => (s.runs i).isOwner = false
  | .publishEnds published => (s.runs i).job = .publish ∧
    ((s.runs i).aborted → published = none)
  | .stopItself => True

/-- Without a verdict on the list. -/
theorem Outcome.fits_goOn (hstart : p ≠ .starting) (hfailing : p ≠ .failing)
    (hkeeps : (s.runs i).isOwner → (s.runs i).live → p.isEnded = false)
    (hloaded : ∀ record, p ≠ .loaded record) : (Outcome.goOn p none).Fits s i :=
  ⟨hstart, hfailing, hkeeps, fun record _ _ hp => absurd hp (hloaded record)⟩

theorem fits_of_resumePublish {answer : Answer} {o : Outcome} (hjob : (s.runs i).job = .publish)
    (h : resumePublish env (s.runs i) answer = some o) : Stands s i ∧ o.Fits s i := by
  unfold resumePublish at h
  split at h
  · rename_i record hphase
    refine ⟨.of_phase hphase rfl (by simp) (by simp), ?_⟩
    split at h
    · cases h
      exact Outcome.fits_goOn (by simp) (by simp) (fun _ _ => rfl) (by simp)
    · cases h
      exact ⟨hjob, fun _ => rfl⟩
  · rename_i record ok hphase
    refine ⟨.of_phase hphase rfl (by simp) (by simp), ?_⟩
    cases h
    split
    · exact Outcome.fits_goOn (by simp) (by simp) (fun _ _ => rfl) (by simp)
    · exact ⟨hjob, fun _ => rfl⟩
  · rename_i record cid hphase
    refine ⟨.of_phase hphase rfl (by simp) (by simp), ?_⟩
    split at h
    · split at h
      · cases h
        exact Outcome.fits_goOn (by simp) (by simp) (fun _ _ => rfl) (by simp)
      · cases h
        exact ⟨hjob, fun haborted => if_pos haborted⟩
    · cases h
      exact ⟨hjob, fun _ => rfl⟩
  · rename_i record cid hphase
    refine ⟨.of_phase hphase rfl (by simp) (by simp), ?_⟩
    cases h
    exact ⟨hjob, fun haborted => if_neg (by simp [haborted])⟩
  · cases h

theorem settlePhase_cases (env : Env) (s : State) :
    settlePhase env s = .resolving ∨ settlePhase env s = .settled := by
  rw [settlePhase]
  split
  · exact .inl rfl
  · exact .inr rfl

theorem fits_settlePhase (env : Env) : (Outcome.goOn (settlePhase env s) none).Fits s i := by
  rcases settlePhase_cases env s with h | h
  · rw [h]
    exact Outcome.fits_goOn (by simp) (by simp) (fun _ _ => rfl) (by simp)
  · rw [h]
    exact Outcome.fits_goOn (by simp) (by simp) (fun _ _ => rfl) (by simp)

/-- A run that has been aborted ends. -/
theorem Inv.fits_ended (h : Inv s) (haborted : (s.runs i).aborted) :
    (Outcome.goOn (.ended false) none).Fits s i := by
  refine Outcome.fits_goOn (by simp) (by simp) (fun howner hlive => ?_) (by simp)
  have hnot := h.stopped i howner haborted
  rw [hlive] at hnot
  cases hnot

theorem fits_of_resumeUpdate {answer : Answer} {o : Outcome} (hinv : Inv s)
    (hjob : (s.runs i).job = .update)
    (h : resumeUpdate env s (s.runs i) answer = some o) : Stands s i ∧ o.Fits s i := by
  have howner : (s.runs i).isOwner := by simp [Run.isOwner, hjob]
  unfold resumeUpdate at h
  split at h
  · rename_i hphase
    refine ⟨.of_phase hphase rfl (by simp) (by simp), ?_⟩
    split at h
    · cases h
      exact hinv.fits_ended ‹_›
    rename_i haborted
    rw [Bool.not_eq_true] at haborted
    split at h
    · rename_i hrecord _
      cases h
      exact ⟨hjob, hphase, haborted, hrecord⟩
    · cases h
      exact .inl ⟨rfl, howner, haborted⟩
    · cases h
      exact .inl rfl
  · rename_i l hphase
    split at h
    · rename_i thrown hended
      have hstands : Stands s i := by
        refine .of_phase hphase rfl (by simp) fun l' hl' => ?_
        cases hl'
        rw [hended]
        rfl
      refine ⟨hstands, ?_⟩
      split at h
      · cases h
        exact hinv.fits_ended ‹_›
      rename_i haborted
      rw [Bool.not_eq_true] at haborted
      split at h
      · cases h
        exact .inl ⟨rfl, howner, haborted⟩
      · cases h
        exact fits_settlePhase env
    · cases h
  · rename_i verdict hphase
    refine ⟨.of_phase hphase rfl (by simp) (by simp), ?_⟩
    split at h
    · cases h
      exact hinv.fits_ended ‹_›
    split at h
    · cases h
      exact .inr rfl
    · cases h
      exact Outcome.fits_goOn (by simp) (by simp) (fun _ _ => rfl) (by simp)
  · rename_i hphase
    refine ⟨.of_phase hphase rfl (by simp) (by simp), ?_⟩
    cases h
    split
    · exact hinv.fits_ended ‹_›
    · exact Outcome.fits_goOn (by simp) (by simp) (fun _ _ => rfl) (by simp)
  · rename_i hphase
    refine ⟨.of_phase hphase rfl (by simp) (by simp), ?_⟩
    cases h
    split
    · exact hinv.fits_ended ‹_›
    · trivial
  · cases h

theorem fits_of_resumeLoad {cid : String} {outer : Option Nat} {answer : Answer} {o : Outcome}
    (hinv : Inv s) (hjob : (s.runs i).job = .load cid outer)
    (h : resumeLoad cid (s.runs i) answer = some o) : Stands s i ∧ o.Fits s i := by
  have howner : (s.runs i).isOwner = false := by simp [Run.isOwner, hjob]
  have hkeeps : ∀ p : Phase, (s.runs i).isOwner → (s.runs i).live → p.isEnded = false := by
    intro p htrue
    rw [howner] at htrue
    cases htrue
  unfold resumeLoad at h
  split at h
  · rename_i record hphase
    refine ⟨.of_phase hphase rfl (by simp) (by simp), ?_⟩
    cases h
    refine ⟨by simp, by simp, hkeeps _, fun record' cid' outer' hrecord hjob' => ?_⟩
    cases hrecord
    cases hjob.symm.trans hjob'
    exact List.mem_singleton_self _
  · rename_i retriable hphase
    refine ⟨.of_phase hphase rfl (by simp) (by simp), ?_⟩
    cases h
    split
    · exact Outcome.fits_goOn (by simp) (by simp) (hkeeps _) (by simp)
    · exact .inr rfl
  · rename_i hphase
    refine ⟨.of_phase hphase rfl (by simp) (by simp), ?_⟩
    split at h
    · cases h
      exact howner
    · cases h
  · rename_i hphase
    refine ⟨.of_phase hphase rfl (by simp) (by simp), ?_⟩
    cases h
    split
    · exact howner
    · exact Outcome.fits_goOn (by simp) (by simp) (hkeeps _) (by simp)
  · rename_i record hphase
    refine ⟨.of_phase hphase rfl (by simp) (by simp), ?_⟩
    cases h
    split
    · exact howner
    · exact hinv.verified i record cid outer hphase hjob
  · rename_i hphase
    refine ⟨.of_phase hphase rfl (by simp) (by simp), ?_⟩
    cases h
    exact howner
  · cases h

theorem fits_of_resume {answer : Answer} {o : Outcome} (hinv : Inv s)
    (h : resume env s (s.runs i) answer = some o) : Stands s i ∧ o.Fits s i := by
  rw [resume] at h
  split at h
  · exact fits_of_resumePublish ‹_› h
  · exact fits_of_resumeUpdate hinv ‹_› h
  · exact fits_of_resumeLoad hinv ‹_› h

/-- A run begins or goes on when its listeners have returned. -/
theorem fits_of_listenersReturned {o : Outcome} (hinv : Inv s)
    (h : listenersReturned env s (s.runs i) = some o) :
    ((s.runs i).phase = .starting ∧ (o = .start .signing ∨ o = .start .waiting)) ∨
      Stands s i ∧ o.Fits s i := by
  rw [listenersReturned] at h
  split at h
  · rename_i hphase
    cases h
    exact .inl ⟨hphase, .inl rfl⟩
  · rename_i hphase
    cases h
    exact .inl ⟨hphase, .inr rfl⟩
  · rename_i hphase
    refine .inr ⟨.of_phase hphase rfl (by simp) (by simp), ?_⟩
    cases h
    split
    · exact hinv.fits_ended ‹_›
    · exact fits_settlePhase env
  · rename_i hphase
    refine .inr ⟨.of_phase hphase rfl (by simp) (by simp), ?_⟩
    cases h
    exact Outcome.fits_goOn (by simp) (by simp) (fun _ _ => rfl) (by simp)
  · rename_i hphase
    refine .inr ⟨.of_phase hphase rfl (by simp) (by simp), ?_⟩
    cases h
    trivial
  · rename_i hphase
    refine .inr ⟨.of_phase hphase rfl (by simp) (by simp), ?_⟩
    cases h
    exact Outcome.fits_goOn (by simp) (by simp) (fun _ _ => rfl) (by simp)
  · rename_i hjob hphase
    refine .inr ⟨.of_phase hphase rfl (by simp) (by simp), ?_⟩
    cases h
    simp [Outcome.Fits, Run.isOwner, hjob]
  · cases h

/-! ## What the outcomes keep -/

namespace Inv

variable {frames : List Nat} {cached : Option Bool}

/-- Without a live run of its own. -/
theorem state_of_stopAbortController (h : Inv s) (hstarting : ∀ j, (s.runs j).phase ≠ .starting)
    (hcontroller : s.stopAbortController = some i) (hlive : (s.runs i).live = false) :
    s.state = .stopped := by
  by_contra hstate
  obtain ⟨j, howner, hjlive⟩ := h.owned hstate
  have hj := h.current j howner hjlive (hstarting j)
  cases hcontroller.symm.trans hj
  rw [hjlive] at hlive
  cases hlive

theorem start (h : Inv s) (hphase : (s.runs i).phase = .starting)
    (hp : p = .signing ∨ p = .waiting) (hframes : ∀ j, j ≠ i → j ∈ s.frames → j ∈ frames) :
    Inv (apply i cached { s with frames := frames } (.start p)) := by
  obtain ⟨howner, hlive, -⟩ := h.starting i hphase
  have hi : ∀ j, (s.runs j).isOwner → (s.runs j).live → j = i := fun j hj hjlive =>
    h.only j i hj hjlive howner hlive
  have hopen : p.isEnded = false := by
    rcases hp with rfl | rfl
    · rfl
    · rfl
  have m : Moves i p s (apply i cached { s with frames := frames } (.start p)) :=
    { runs := rfl
      wasOpen := (live_iff.1 hlive).1
      toStart := by rcases hp with rfl | rfl <;> simp
      noStart := fun j hj hstart => hj (hi j (h.starting j hstart).1 (h.starting j hstart).2.1)
      loading := fun l hl => by rw [hphase] at hl; cases hl
      failing := fun hfail => by rcases hp with rfl | rfl <;> cases hfail
      frames := hframes
      others := fun _ _ hmirror => hmirror
      own := fun _ => rfl
      count := rfl
      genuine := List.Subset.refl _
      held := h.held
      verified := fun _ _ _ hloaded => by rcases hp with rfl | rfl <;> cases hloaded }
  refine h.of_moves m ⟨?_, ?_, ?_, ?_, ?_⟩
  · intro j hj hjlive _
    rw [m.isOwner] at hj
    rw [hi j hj (m.live_of_live hjlive)]
    rfl
  · intro j hj hjlive
    rw [m.isOwner] at hj
    rw [(m.same j).1]
    exact h.state j hj (m.live_of_live hjlive)
  · intro j k hj hjlive hk hklive
    rw [m.isOwner] at hj hk
    rw [hi j hj (m.live_of_live hjlive), hi k hk (m.live_of_live hklive)]
  · intro hstate
    refine ⟨i, (m.isOwner i).trans howner, ?_⟩
    rw [live_iff, m.run]
    exact ⟨hopen, (live_iff.1 hlive).2⟩
  · have hnone : s.isUpdatingCommunityList = false := by
      rw [Bool.eq_false_iff, Ne, h.listed]
      rintro ⟨j, hjlive, hjob, hstart⟩
      rw [hi j (by simp [Run.isOwner, hjob]) hjlive] at hstart
      exact hstart hphase
    have hlisted : (apply i cached { s with frames := frames } (.start p)).isUpdatingCommunityList =
        decide ((s.runs i).job = .update) := by
      simp only [apply, hnone, Bool.false_or]
    rw [hlisted, decide_eq_true_iff]
    constructor
    · intro hjob
      refine ⟨i, ?_, ?_, ?_⟩
      · rw [live_iff, m.run]
        exact ⟨hopen, (live_iff.1 hlive).2⟩
      · rw [(m.same i).1, hjob]
      · rw [m.run]
        exact m.toStart
    · rintro ⟨j, hjlive, hjob, -⟩
      rw [(m.same j).1] at hjob
      rwa [hi j (by simp [Run.isOwner, hjob]) (m.live_of_live hjlive)] at hjob

theorem goOn (h : Inv s) (hstands : Stands s i) (hstarting : ∀ j, (s.runs j).phase ≠ .starting)
    (hframes : ∀ j, j ≠ i → j ∈ s.frames → j ∈ frames) {genuine : Option (Record × String)}
    (hfits : (Outcome.goOn p genuine).Fits s i) :
    Inv (apply i cached { s with frames := frames } (.goOn p genuine)) := by
  obtain ⟨htoStart, hfailing, hkeeps, hloaded⟩ := hfits
  have hgrown : s.genuine ⊆ genuine.toList ++ s.genuine := List.subset_append_right _ _
  exact h.keeps
    { hstands with
      runs := rfl
      toStart := htoStart
      noStart := fun j _ => hstarting j
      failing := fun hfail => absurd hfail hfailing
      frames := hframes
      others := fun _ _ hmirror => hmirror
      own := fun _ => rfl
      count := rfl
      genuine := hgrown
      held := fun record hrecord => by
        obtain ⟨cid, hcid, hmem⟩ := h.held record hrecord
        exact ⟨cid, hcid, hgrown hmem⟩
      verified := fun record cid outer hphase hjob =>
        List.mem_append_left _ (hloaded record cid outer hphase hjob)
      keepsOwner := hkeeps
      stopAbortController := rfl
      state := rfl
      isUpdatingCommunityList := rfl }

/-- An event is emitted. -/
theorem emits (h : Inv s) (hstands : Stands s i) (hstarting : ∀ j, (s.runs j).phase ≠ .starting)
    (hframes : ∀ j, j ≠ i → j ∈ s.frames → j ∈ s'.frames) (hmem : i ∈ s'.frames)
    (hruns : s'.runs = (s.setPhase i p).runs) (hopen : p.isEnded = false) (hstart : p ≠ .starting)
    (hfailing : p = .failing → (s.runs i).isOwner ∧ (s.runs i).stopped = false)
    (hloaded : ∀ record, p ≠ .loaded record)
    (hmirror : s'.loadingAbortController = s.loadingAbortController) (hcount : s'.count = s.count)
    (hgenuine : s'.genuine = s.genuine)
    (hheld : ∀ record, s'.record = some record →
      ∃ cid, s'.cid = some cid ∧ (record, cid) ∈ s'.genuine)
    (hcontroller : s'.stopAbortController = s.stopAbortController) (hstate : s'.state = s.state)
    (hlisted : s'.isUpdatingCommunityList = s.isUpdatingCommunityList) : Inv s' :=
  h.keeps
    { hstands with
      runs := hruns
      toStart := hstart
      noStart := fun j _ => hstarting j
      failing := fun hfail => ⟨(hfailing hfail).1, hmem, (hfailing hfail).2⟩
      frames := hframes
      others := fun _ _ hj => hmirror.trans hj
      own := fun _ => hmirror
      count := hcount
      genuine := hgenuine ▸ List.Subset.refl _
      held := hheld
      verified := fun record _ _ hphase => absurd hphase (hloaded record)
      keepsOwner := fun _ _ => hopen
      stopAbortController := hcontroller
      state := hstate
      isUpdatingCommunityList := hlisted }

theorem settle (h : Inv s) (hstands : Stands s i) (hstarting : ∀ j, (s.runs j).phase ≠ .starting)
    (hframes : ∀ j, j ≠ i → j ∈ s.frames → j ∈ frames) {thrown : Bool}
    (howner : (s.runs i).isOwner = false) :
    Inv (apply i cached { s with frames := frames } (.settle thrown)) :=
  have m : Moves i (.ended thrown) s _ :=
    .of_phase h hstands hstarting hframes (by simp) (by simp) (by simp)
  h.keeps
    { m with
      others := fun j hj hmirror => by
        refine (if_neg ?_).trans hmirror
        rintro hi
        cases hmirror.symm.trans hi
        exact hj rfl
      own := fun hopen => by cases hopen
      fromStart := hstands.fromStart
      keepsOwner := fun htrue => by rw [howner] at htrue; cases htrue
      stopAbortController := rfl
      state := rfl
      isUpdatingCommunityList := rfl }

theorem stopItself (h : Inv s) (hstands : Stands s i)
    (hstarting : ∀ j, (s.runs j).phase ≠ .starting)
    (hframes : ∀ j, j ≠ i → j ∈ s.frames → j ∈ frames) :
    Inv (apply i cached { s with frames := frames } .stopItself) := by
  have hstopped := h.stop hstarting
  have hnot : ((CommunityList.stop s).runs i).live = false :=
    live_eq_false_iff.2 fun hopen => by
      simp only [CommunityList.stop, setState] at hopen ⊢
      rw [hopen, Bool.not_false, Bool.or_true]
  have m : Moves i (.ended false) (CommunityList.stop s) _ :=
    .of_phase hstopped ⟨hstands.wasOpen, hstands.fromStart, hstands.loading⟩ hstarting hframes
      (by simp) (by simp) (by simp)
  exact hstopped.keeps
    { m with
      fromStart := hstands.fromStart
      keepsOwner := fun _ hlive => by rw [hnot] at hlive; cases hlive
      stopAbortController := rfl
      state := rfl
      isUpdatingCommunityList := rfl }

theorem publishEnds (h : Inv s) (hstands : Stands s i)
    (hstarting : ∀ j, (s.runs j).phase ≠ .starting)
    (hframes : ∀ j, j ≠ i → j ∈ s.frames → j ∈ frames) {published : Option (Record × String)}
    (hjob : (s.runs i).job = .publish) :
    Inv (apply i cached { s with frames := frames } (.publishEnds published)) := by
  have howner : (s.runs i).isOwner := by simp [Run.isOwner, hjob]
  have hended : Moves i (.ended published.isNone) s _ :=
    .of_phase h hstands hstarting hframes (by simp) (by simp) (by simp)
  obtain ⟨s₁, hs₁⟩ : ∃ s₁, s₁ =
      (adopt published cached { s with frames := frames }).setPhase i (.ended published.isNone) :=
    ⟨_, rfl⟩
  have hsame : s₁.stopAbortController = s.stopAbortController ∧ s₁.state = s.state ∧
      s₁.isUpdatingCommunityList = s.isUpdatingCommunityList := by
    subst hs₁
    cases published with
    | _ => exact ⟨rfl, rfl, rfl⟩
  have m : Moves i (.ended published.isNone) s s₁ := by
    subst hs₁
    cases published with
    | none => exact hended
    | some published =>
      exact
        { hended with
          genuine := List.subset_cons_self _ _
          held := fun record hrecord => by
            cases hrecord
            exact ⟨published.2, rfl, List.mem_cons_self⟩
          verified := fun _ _ _ hphase => (by cases hphase) }
  have hkeeps : (s.runs i).live = false → Keeps i (.ended published.isNone) s s₁ := fun hnot =>
    { m with
      fromStart := hstands.fromStart
      keepsOwner := fun _ hlive => (by rw [hnot] at hlive; cases hlive)
      stopAbortController := hsame.1
      state := hsame.2.1
      isUpdatingCommunityList := hsame.2.2 }
  have hends : apply i cached { s with frames := frames } (.publishEnds published) =
      if s₁.stopAbortController = some i then setState .stopped s₁ else s₁ := by
    subst hs₁
    rfl
  rw [hends, hsame.1]
  cases hlive : (s.runs i).live with
  | false =>
    split
    · -- nobody has taken over, and there is nothing to reset
      rename_i hcontroller
      have hstate := h.state_of_stopAbortController hstarting hcontroller hlive
      exact h.keeps { hkeeps hlive with state := hstate.symm }
    · exact h.keeps (hkeeps hlive)
  | true =>
    rw [if_pos (h.current i howner hlive hstands.fromStart)]
    have hnone : ∀ j, ((setState .stopped s₁).runs j).isOwner →
        ¬ ((setState .stopped s₁).runs j).live := by
      intro j hj hjlive
      obtain rfl :=
        h.only j i ((m.isOwner j).symm.trans hj) (m.live_of_live hjlive) howner hlive
      have hopen : (s₁.runs j).phase.isEnded = false := (live_iff.1 hjlive).1
      rw [m.run] at hopen
      cases hopen
    refine h.of_moves { m with } ⟨?_, ?_, ?_, ?_, ?_⟩
    · exact fun j hj hjlive => absurd hjlive (hnone j hj)
    · exact fun j hj hjlive => absurd hjlive (hnone j hj)
    · exact fun j _ hj hjlive => absurd hjlive (hnone j hj)
    · exact fun hstate => absurd rfl hstate
    · refine iff_of_false ?_ ?_
      · intro hlisted
        obtain ⟨j, hjlive, hjob', -⟩ := h.listed.1 (hsame.2.2 ▸ hlisted)
        obtain rfl := h.only j i (by simp [Run.isOwner, hjob']) hjlive howner hlive
        cases hjob.symm.trans hjob'
      · rintro ⟨j, hjlive, hjob', -⟩
        exact hnone j (by simp [Run.isOwner, hjob']) hjlive

end Inv

/-! ## What a call begins -/

/-- A run begins. -/
structure Adds (run : Run) (s s' : State) : Prop where
  runs : s'.runs = Function.update s.runs s.count run
  count : s'.count = s.count + 1
  phase : run.phase = .starting ∨ run.phase = .fetching
  aborted : run.aborted = false
  stopped : run.stopped = false
  frames : ∀ j ∈ s.frames, j ∈ s'.frames
  starting : ∀ i, (s'.runs i).phase = .starting →
    (s'.runs i).isOwner ∧ (s'.runs i).live ∧ s'.frames.head? = some i
  begun : ∀ i, (s.runs i).phase = .failing → (s.runs i).stopped = false
  alone : ∀ i cid, (s'.runs i).job = .load cid none → (s'.runs i).phase.isEnded = false →
    (s'.runs i).aborted = false → s'.loadingAbortController = some i
  inner : ∀ cid r, run.job = .load cid (some r) →
    (s.runs r).job = .update ∧ (s.runs r).live ∧ (s.runs r).phase = .loading s.count
  record : s'.record = s.record
  cid : s'.cid = s.cid
  genuine : s'.genuine = s.genuine

namespace Adds

variable {run : Run}

theorem run_count (a : Adds run s s') : s'.runs s.count = run := by
  rw [a.runs, Function.update_self]

theorem run_of_ne (a : Adds run s s') {j : Nat} (h : j ≠ s.count) : s'.runs j = s.runs j := by
  rw [a.runs, Function.update_of_ne h]

/-- What is in a phase that no run begins with was there before. -/
theorem old_of_phase (a : Adds run s s') {j : Nat} (hphase : (s'.runs j).phase = p)
    (hstarting : p ≠ .starting) (hfetching : p ≠ .fetching) : s'.runs j = s.runs j := by
  refine a.run_of_ne ?_
  rintro rfl
  rw [a.run_count] at hphase
  rcases a.phase with hrun | hrun
  · exact hstarting (hphase.symm.trans hrun)
  · exact hfetching (hphase.symm.trans hrun)

end Adds

theorem Inv.ne_count (h : Inv s) (hopen : (s.runs i).phase.isEnded = false) : i ≠ s.count := by
  rintro rfl
  rw [h.fresh s.count (Nat.le_refl _)] at hopen
  cases hopen

theorem Inv.of_adds {run : Run} (h : Inv s) (a : Adds run s s') (hcontrolled : Controlled s') :
    Inv s' := by
  constructor
  case toControlled => exact hcontrolled
  case aborted =>
    intro j hstopped
    by_cases hj : j = s.count
    · rw [hj, a.run_count, a.stopped] at hstopped
      cases hstopped
    · rw [a.run_of_ne hj] at hstopped ⊢
      exact h.aborted j hstopped
  case stopped =>
    intro j howner haborted
    by_cases hj : j = s.count
    · rw [hj, a.run_count, a.aborted] at haborted
      cases haborted
    · rw [a.run_of_ne hj] at howner haborted ⊢
      exact h.stopped j howner haborted
  case starting => exact a.starting
  case failing =>
    intro j hphase
    have hold := a.old_of_phase hphase (by simp) (by simp)
    rw [hold] at hphase ⊢
    obtain ⟨howner, hmem, -⟩ := h.failing j hphase
    refine ⟨howner, a.frames j hmem, fun hstopped => ?_⟩
    rw [a.begun j hphase] at hstopped
    cases hstopped
  case alone => exact a.alone
  case inner =>
    intro j cid r hjob hopen haborted
    have hr : (s.runs r).job = .update ∧ (s.runs r).live ∧ (s.runs r).phase = .loading j := by
      by_cases hj : j = s.count
      · subst hj
        rw [a.run_count] at hjob
        exact a.inner cid r hjob
      · rw [a.run_of_ne hj] at hjob hopen haborted
        exact h.inner j cid r hjob hopen haborted
    rw [a.run_of_ne (h.ne_count (live_iff.1 hr.2.1).1)]
    exact hr
  case fresh =>
    intro j hle
    rw [a.count] at hle
    rw [a.run_of_ne (by omega)]
    exact h.fresh j (by omega)
  case held =>
    rw [a.record, a.cid, a.genuine]
    exact h.held
  case verified =>
    intro j record cid outer hphase hjob
    have hold := a.old_of_phase hphase (by simp) (by simp)
    rw [hold] at hphase hjob
    rw [a.genuine]
    exact h.verified j record cid outer hphase hjob

namespace Inv

variable {frames : List Nat} {cached : Option Bool}

/-- A load begins, for a caller or for a run. -/
theorem startLoad (h : Inv s) {cid : String} {outer : Option Nat}
    (hover : ∀ j, (s.runs j).phase = .failing → (s.runs j).stopped = false)
    (hreachable : ∀ j c, (s.runs j).job = .load c none →
      (s.runs j).phase.isEnded ∨ (s.runs j).aborted)
    (houter : ∀ r, outer = some r →
      (s.runs r).job = .update ∧ (s.runs r).live ∧ (s.runs r).phase = .loading s.count) :
    Inv (startLoad cid outer s) := by
  have hold : ∀ j, j ≠ s.count → (CommunityList.startLoad cid outer s).runs j = s.runs j :=
    fun j hj => Function.update_of_ne hj _ _
  have hnew : (CommunityList.startLoad cid outer s).runs s.count =
      ⟨.load cid outer, false, .fetching, false⟩ := Function.update_self _ _ _
  have howner : ∀ j, ((CommunityList.startLoad cid outer s).runs j).isOwner →
      (CommunityList.startLoad cid outer s).runs j = s.runs j := by
    intro j hj
    refine hold j ?_
    rintro rfl
    rw [hnew] at hj
    cases hj
  -- nothing that sets the state has begun
  have hback : ∀ j, (s.runs j).live → (CommunityList.startLoad cid outer s).runs j = s.runs j :=
    fun j hlive => hold j (h.ne_count (live_iff.1 hlive).1)
  have a : Adds ⟨.load cid outer, false, .fetching, false⟩ s
      (CommunityList.startLoad cid outer s) := by
    refine
      { runs := rfl
        count := rfl
        phase := .inr rfl
        aborted := rfl
        stopped := rfl
        frames := fun _ hmem => hmem
        starting := fun j hphase => ?_
        begun := hover
        alone := fun j c hjob hopen haborted => ?_
        inner := fun c r hjob => ?_
        record := rfl
        cid := rfl
        genuine := rfl }
    · by_cases hj : j = s.count
      · rw [hj, hnew] at hphase
        cases hphase
      · rw [hold j hj] at hphase ⊢
        exact h.starting j hphase
    · by_cases hj : j = s.count
      · rw [hj]
        rfl
      · rw [hold j hj] at hjob hopen haborted
        rcases hreachable j c hjob with hended | habort
        · rw [hopen] at hended
          cases hended
        · rw [haborted] at habort
          cases habort
    · cases hjob
      exact houter r rfl
  refine h.of_adds a ⟨?_, ?_, ?_, ?_, ?_⟩
  · intro j hj
    have hsame := howner j hj
    rw [hsame] at hj ⊢
    exact h.current j hj
  · intro j hj
    have hsame := howner j hj
    rw [hsame] at hj ⊢
    exact h.state j hj
  · intro j k hj hjlive hk hklive
    have hsame := howner j hj
    have hsame' := howner k hk
    rw [hsame] at hj hjlive
    rw [hsame'] at hk hklive
    exact h.only j k hj hjlive hk hklive
  · intro hstate
    obtain ⟨j, hj, hlive⟩ := h.owned hstate
    have hsame := hback j hlive
    rw [← hsame] at hj hlive
    exact ⟨j, hj, hlive⟩
  · refine h.listed.trans ⟨?_, ?_⟩
    · rintro ⟨j, hlive, hjob, hphase⟩
      have hsame := hback j hlive
      rw [← hsame] at hlive hjob hphase
      exact ⟨j, hlive, hjob, hphase⟩
    · rintro ⟨j, hlive, hjob, hphase⟩
      have hsame := howner j (by rw [Run.isOwner, hjob])
      rw [hsame] at hlive hjob hphase
      exact ⟨j, hlive, hjob, hphase⟩

theorem not_live_of_stopped (h : Inv s) (hstate : s.state = .stopped) (hi : (s.runs i).isOwner) :
    (s.runs i).live = false := by
  by_contra hlive
  have hjob := h.state i hi (by simpa using hlive)
  rw [hstate] at hjob
  rw [Run.isOwner] at hi
  cases hrun : (s.runs i).job with
  | load cid outer =>
    rw [hrun] at hi
    cases hi
  | _ =>
    rw [hrun] at hjob
    cases hjob

/-- A run that sets the state begins. -/
theorem startRun (h : Inv s) {job : Job} (hjob : ∀ cid outer, job ≠ .load cid outer)
    (hstate : s.state = .stopped)
    (hover : ∀ j, (s.runs j).phase = .failing → (s.runs j).stopped = false) :
    Inv (startRun job s) := by
  have hold : ∀ j, j ≠ s.count → (CommunityList.startRun job s).runs j = s.runs j :=
    fun j hj => Function.update_of_ne hj _ _
  have hnew : (CommunityList.startRun job s).runs s.count = ⟨job, false, .starting, false⟩ :=
    Function.update_self _ _ _
  have howner : ((CommunityList.startRun job s).runs s.count).isOwner := by
    rw [hnew]
    cases hrun : job with
    | load cid outer => exact absurd hrun (hjob cid outer)
    | _ => rfl
  have hnone : ∀ j, (s.runs j).isOwner → ¬ (s.runs j).live := by
    intro j hj hlive
    rw [h.not_live_of_stopped hstate hj] at hlive
    cases hlive
  -- only the new run sets the state
  have honly : ∀ j, ((CommunityList.startRun job s).runs j).isOwner →
      ((CommunityList.startRun job s).runs j).live → j = s.count := by
    intro j hj hlive
    by_contra hne
    rw [hold j hne] at hj hlive
    exact hnone j hj hlive
  have a : Adds ⟨job, false, .starting, false⟩ s (CommunityList.startRun job s) := by
    refine
      { runs := rfl
        count := rfl
        phase := .inl rfl
        aborted := rfl
        stopped := rfl
        frames := fun _ hmem => List.mem_cons_of_mem _ hmem
        starting := fun j hphase => ?_
        begun := hover
        alone := fun j c hload hopen haborted => ?_
        inner := fun c r hload => absurd hload (hjob c _)
        record := rfl
        cid := rfl
        genuine := rfl }
    · by_cases hj : j = s.count
      · subst hj
        refine ⟨howner, ?_, rfl⟩
        rw [hnew]
        rfl
      · rw [hold j hj] at hphase
        exact absurd (h.starting j hphase).2.1 (hnone j (h.starting j hphase).1)
    · by_cases hj : j = s.count
      · rw [hj, hnew] at hload
        exact absurd hload (hjob c none)
      · rw [hold j hj] at hload hopen haborted
        exact h.alone j c hload hopen haborted
  refine h.of_adds a ⟨?_, ?_, ?_, ?_, ?_⟩
  · intro j hj hlive hphase
    rw [honly j hj hlive, hnew] at hphase
    exact absurd rfl hphase
  · intro j hj hlive
    rw [honly j hj hlive, hnew]
    rfl
  · intro j k hj hjlive hk hklive
    rw [honly j hj hjlive, honly k hk hklive]
  · intro _
    refine ⟨s.count, howner, ?_⟩
    rw [hnew]
    rfl
  · refine h.listed.trans (iff_of_false ?_ ?_)
    · rintro ⟨j, hlive, hupdate, -⟩
      exact hnone j (by simp [Run.isOwner, hupdate]) hlive
    · rintro ⟨j, hlive, hupdate, hphase⟩
      rw [honly j (by simp [Run.isOwner, hupdate]) hlive, hnew] at hphase
      exact hphase rfl

/-- The caller of a load gives it up. -/
theorem abortLoad (h : Inv s) {cid : String} (hjob : (s.runs i).job = .load cid none) :
    Inv { s with runs := Function.update s.runs i { s.runs i with aborted := true } } := by
  obtain ⟨runs, hruns⟩ : ∃ runs, runs =
      Function.update s.runs i { s.runs i with aborted := true } := ⟨_, rfl⟩
  rw [← hruns]
  have hi : runs i = { s.runs i with aborted := true } := by rw [hruns, Function.update_self]
  have hother : ∀ j, j ≠ i → runs j = s.runs j := fun j hj => by
    rw [hruns, Function.update_of_ne hj]
  have hsame : ∀ j, (runs j).job = (s.runs j).job ∧ (runs j).phase = (s.runs j).phase ∧
      (runs j).stopped = (s.runs j).stopped := by
    intro j
    by_cases hj : j = i
    · subst hj
      rw [hi]
      exact ⟨rfl, rfl, rfl⟩
    · rw [hother j hj]
      exact ⟨rfl, rfl, rfl⟩
  have howner : ∀ j, (runs j).isOwner = (s.runs j).isOwner := fun j => by
    rw [Run.isOwner, Run.isOwner, (hsame j).1]
  have hlive : ∀ j, (runs j).live = (s.runs j).live := fun j => by
    rw [Run.live, Run.live, (hsame j).2.1, (hsame j).2.2]
  -- it is not a run that sets the state
  have hnotLoad : ∀ j, (s.runs j).isOwner → j ≠ i := by
    rintro j hj rfl
    rw [Run.isOwner, hjob] at hj
    cases hj
  have haborted : ∀ j, (runs j).aborted = false → (s.runs j).aborted = false := by
    intro j hj
    by_cases hji : j = i
    · rw [hji, hi] at hj
      cases hj
    · rwa [hother j hji] at hj
  constructor
  case toControlled =>
    refine ⟨fun j => ?_, fun j => ?_, fun j k => ?_, ?_, ?_⟩
    · simp only [howner, hlive, hsame]
      exact h.current j
    · simp only [howner, hlive, hsame]
      exact h.state j
    · simp only [howner, hlive]
      exact h.only j k
    · simp only [howner, hlive]
      exact h.owned
    · simp only [hlive, hsame]
      exact h.listed
  case aborted =>
    intro j hstopped
    by_contra hnot
    rw [Bool.not_eq_true] at hnot
    have hback := h.aborted j ((hsame j).2.2 ▸ hstopped)
    rw [haborted j hnot] at hback
    cases hback
  case stopped =>
    intro j hj habort
    have hji := hother j (hnotLoad j (howner j ▸ hj))
    simp only [hji] at hj habort ⊢
    exact h.stopped j hj habort
  case starting =>
    simp only [hsame, howner, hlive]
    exact h.starting
  case failing =>
    simp only [hsame, howner, hlive]
    exact h.failing
  case alone =>
    simp only [hsame]
    exact fun j c hload hopen hj => h.alone j c hload hopen (haborted j hj)
  case inner =>
    simp only [hsame, hlive]
    exact fun j c r hload hopen hj => h.inner j c r hload hopen (haborted j hj)
  case fresh =>
    simp only [hsame]
    exact h.fresh
  case held => exact h.held
  case verified =>
    simp only [hsame]
    exact h.verified

/-- An update run begins to load. -/
theorem loads (h : Inv s) {cid : String} (hfits : (Outcome.load cid).Fits s i)
    (hstarting : ∀ j, (s.runs j).phase ≠ .starting)
    (hframes : ∀ j, j ≠ i → j ∈ s.frames → j ∈ frames)
    (hreachable : ∀ j c, (s.runs j).job = .load c none →
      (s.runs j).phase.isEnded ∨ (s.runs j).aborted) :
    Inv (apply i cached { s with frames := frames } (.load cid)) := by
  obtain ⟨hjob, hphase, haborted, -⟩ := hfits
  have hopen : (s.runs i).phase.isEnded = false := by
    rw [hphase]
    rfl
  have hlive : (s.runs i).live := by
    refine live_iff.2 ⟨hopen, ?_⟩
    by_contra hstopped
    rw [h.aborted i (by simpa using hstopped)] at haborted
    cases haborted
  have m : Keeps i (.loading s.count) s
      (({ s with frames := frames } : State).setPhase i (.loading s.count)) :=
    { Moves.of_phase h (.of_phase hphase rfl (by simp) (by simp)) hstarting hframes (by simp)
        (by simp) (by simp) with
      fromStart := hstarting i
      keepsOwner := fun _ _ => rfl
      stopAbortController := rfl
      state := rfl
      isUpdatingCommunityList := rfl }
  have hcomm : apply i cached { s with frames := frames } (.load cid) =
      CommunityList.startLoad cid (some i)
        (({ s with frames := frames } : State).setPhase i (.loading s.count)) := by
    have hne := h.ne_count hopen
    simp only [apply, CommunityList.startLoad, State.setPhase, Function.update_of_ne hne]
    rw [Function.update_comm hne]
  rw [hcomm]
  refine (h.keeps m).startLoad ?_ ?_ ?_
  · intro j hj
    by_contra hstopped
    have hnot := ((h.keeps m).failing j hj).2.2 (by simpa using hstopped) i
    rw [Run.live, m.run] at hnot
    rw [Run.live, hopen] at hlive
    cases hlive.symm.trans hnot
  · intro j c hload
    rw [(m.same j).1] at hload
    have hji : j ≠ i := by
      rintro rfl
      cases hjob.symm.trans hload
    rw [m.run_of_ne hji]
    exact hreachable j c hload
  · intro r hr
    cases hr
    rw [m.run]
    refine ⟨hjob, ?_, rfl⟩
    rw [live_iff]
    exact ⟨rfl, (live_iff.1 hlive).2⟩

/-- What a run does, but for its start. -/
theorem applied (h : Inv s) {o : Outcome} (hstands : Stands s i) (hfits : o.Fits s i)
    (hstarting : ∀ j, (s.runs j).phase ≠ .starting)
    (hframes : ∀ j, j ≠ i → j ∈ s.frames → j ∈ frames)
    (hreachable : (∃ cid, o = .load cid) → ∀ j c, (s.runs j).job = .load c none →
      (s.runs j).phase.isEnded ∨ (s.runs j).aborted) :
    Inv (apply i cached { s with frames := frames } o) := by
  have hpushed : ∀ j, j ≠ i → j ∈ s.frames → j ∈ i :: frames :=
    fun j hj hmem => List.mem_cons_of_mem _ (hframes j hj hmem)
  cases o with
  | goOn p genuine => exact h.goOn hstands hstarting hframes hfits
  | start p => exact hfits.elim
  | load cid => exact h.loads hfits hstarting hframes (hreachable ⟨cid, rfl⟩)
  | emitError p =>
    have hphase : p.isEnded = false ∧ p ≠ .starting ∧ ∀ record, p ≠ .loaded record := by
      rcases hfits with ⟨rfl, -⟩ | rfl
      · exact ⟨rfl, by simp, by simp⟩
      · exact ⟨rfl, by simp, by simp⟩
    refine h.emits hstands hstarting hpushed List.mem_cons_self rfl hphase.1 hphase.2.1
      (fun hfail => ?_) hphase.2.2 rfl rfl rfl h.held rfl rfl rfl
    rcases hfits with ⟨-, howner, haborted⟩ | rfl
    · refine ⟨howner, ?_⟩
      by_contra hstopped
      rw [h.aborted i (by simpa using hstopped)] at haborted
      cases haborted
    · cases hfail
  | emitUpdate p nameResolved =>
    have hphase : p.isEnded = false ∧ p ≠ .starting ∧ p ≠ .failing ∧
        ∀ record, p ≠ .loaded record := by
      rcases hfits with rfl | rfl
      · exact ⟨rfl, by simp, by simp, by simp⟩
      · exact ⟨rfl, by simp, by simp, by simp⟩
    exact h.emits hstands hstarting hpushed List.mem_cons_self rfl hphase.1 hphase.2.1
      (fun hfail => absurd hfail hphase.2.2.1) hphase.2.2.2 rfl rfl rfl h.held rfl rfl rfl
  | «show» record cid =>
    refine h.emits (p := .showing) hstands hstarting hpushed List.mem_cons_self rfl rfl (by simp)
      (fun hfail => by cases hfail) (by simp) rfl rfl rfl (fun record' hrecord => ?_) rfl rfl rfl
    cases hrecord
    exact ⟨cid, rfl, hfits⟩
  | settle thrown => exact h.settle hstands hstarting hframes hfits
  | publishEnds published => exact h.publishEnds hstands hstarting hframes hfits.1
  | stopItself => exact h.stopItself hstands hstarting hframes

/-- **What a step keeps.** -/
theorem step {a : Action} (h : Inv s) (hok : Ok env s a)
    (hstep : CommunityList.step env s a = some s') : Inv s' := by
  cases a with
  | publish =>
    cases hstep
    rw [publish]
    split
    · exact h
    split
    · exact h
    rename_i hsigner hstate
    rw [ne_eq, not_not] at hstate
    exact h.startRun (by simp) hstate (hok.begun ⟨by simpa using hsigner, hstate⟩)
  | update =>
    cases hstep
    rw [update]
    split
    · exact h
    split
    · exact h
    rename_i hstate hcid
    rw [ne_eq, not_not] at hstate
    have hsome : s.cid.isSome := by simpa [Option.isSome_iff_ne_none] using hcid
    exact h.startRun (by simp) hstate (hok.begun ⟨hsome, hstate⟩)
  | stop =>
    cases hstep
    exact h.stop (hok.started rfl)
  | load =>
    cases hstep
    rw [load]
    split
    · rename_i cid hrecord hcid
      have hbegins : s.record = none ∧ s.cid.isSome := ⟨hrecord, by rw [hcid]; rfl⟩
      exact h.startLoad (hok.begun hbegins) (hok.reachable hbegins) (by simp)
    · exact h
  | abortLoad i =>
    simp only [CommunityList.step] at hstep
    split at hstep
    · cases hstep
      exact h.abortLoad ‹_›
    · cases hstep
  | listenersReturned =>
    simp only [CommunityList.step] at hstep
    split at hstep
    · cases hstep
    rename_i i frames hframes
    obtain ⟨o, ho, rfl⟩ := Option.map_eq_some_iff.1 hstep
    have hpopped : ∀ j, j ≠ i → j ∈ s.frames → j ∈ frames := by
      intro j hj hmem
      rw [hframes] at hmem
      exact List.mem_of_ne_of_mem hj hmem
    rcases fits_of_listenersReturned h ho with ⟨hphase, rfl | rfl⟩ | ⟨hstands, hfits⟩
    · exact h.start hphase (.inl rfl) hpopped
    · exact h.start hphase (.inr rfl) hpopped
    · refine h.applied hstands hfits (fun j hj => ?_) hpopped ?_
      · have hhead := (h.starting j hj).2.2
        rw [hframes] at hhead
        cases hhead
        exact hstands.fromStart hj
      · -- no run loads when its listeners return
        rintro ⟨cid, rfl⟩
        rw [listenersReturned, hfits.1, hfits.2.1] at ho
        cases ho
  | resume i answer cached =>
    simp only [CommunityList.step] at hstep
    split at hstep
    · rename_i hframes
      obtain ⟨o, ho, rfl⟩ := Option.map_eq_some_iff.1 hstep
      obtain ⟨hstands, hfits⟩ := fits_of_resume h ho
      refine h.applied hstands hfits (fun j hj => ?_) (fun _ _ hmem => hmem) ?_
      · have hhead := (h.starting j hj).2.2
        rw [hframes] at hhead
        cases hhead
      · rintro ⟨cid, rfl⟩
        exact hok.reachable hfits
    · cases hstep

end Inv

/-! ## What a stopped run does -/

def Outcome.isQuiet : Outcome → Bool
  | .goOn _ _ => true
  | .settle _ => true
  | .publishEnds published => published.isNone
  | _ => false

theorem isQuiet_of_resume {run : Run} {answer : Answer} {o : Outcome} (haborted : run.aborted)
    (h : resume env s run answer = some o) : o.isQuiet := by
  rw [resume] at h
  split at h
  · unfold resumePublish at h
    simp only [haborted, Bool.not_true, Bool.and_false, if_true, Bool.false_eq_true, if_false] at h
    split at h
    · split at h
      · cases h
        rfl
      · cases h
        rfl
    · cases h
      rfl
    · split at h
      · split at h
        · cases h
          rfl
        · cases h
          rfl
      · cases h
        rfl
    · cases h
      rfl
    · cases h
  · unfold resumeUpdate at h
    simp only [haborted, if_true] at h
    split at h
    · cases h
      rfl
    · split at h
      · cases h
        rfl
      · cases h
    · cases h
      rfl
    · cases h
      rfl
    · cases h
      rfl
    · cases h
  · unfold resumeLoad at h
    simp only [haborted, if_true, Bool.true_or] at h
    split at h
    · cases h
      rfl
    · cases h
      rfl
    · cases h
      rfl
    · cases h
      rfl
    · cases h
      rfl
    · cases h
      rfl
    · cases h

/-- But for the end of an update that has failed. -/
theorem isQuiet_of_listenersReturned {run : Run} {o : Outcome} (haborted : run.aborted)
    (hstarting : run.phase ≠ .starting) (h : listenersReturned env s run = some o) :
    o.isQuiet ∨ run.phase = .failing ∧ o = .stopItself := by
  rw [listenersReturned] at h
  simp only [haborted, if_true] at h
  split at h
  · exact absurd ‹_› hstarting
  · exact absurd ‹_› hstarting
  · cases h
    exact .inl rfl
  · cases h
    exact .inl rfl
  · cases h
    exact .inr ⟨‹_›, rfl⟩
  · cases h
    exact .inl rfl
  · cases h
    exact .inl rfl
  · cases h

namespace Inv

variable {frames : List Nat} {cached : Option Bool}

theorem untouched_of_isQuiet (h : Inv s) {o : Outcome} (hquiet : o.isQuiet)
    (hlive : (s.runs i).live = false) (hstarting : ∀ j, (s.runs j).phase ≠ .starting) :
    Untouched i s (apply i cached { s with frames := frames } o) := by
  cases o with
  | goOn p genuine =>
    exact ⟨rfl, rfl, rfl, rfl, rfl, rfl, rfl, rfl, fun j hj _ => setPhase_runs_of_ne hj⟩
  | settle thrown =>
    exact ⟨rfl, rfl, rfl, rfl, rfl, rfl, rfl, rfl, fun j hj _ => setPhase_runs_of_ne hj⟩
  | publishEnds published =>
    rw [Outcome.isQuiet, Option.isNone_iff_eq_none] at hquiet
    subst hquiet
    have hends : apply i cached { s with frames := frames } (.publishEnds none) =
        if s.stopAbortController = some i then
          setState .stopped (({ s with frames := frames } : State).setPhase i (.ended true))
        else ({ s with frames := frames } : State).setPhase i (.ended true) := rfl
    rw [hends]
    split
    · -- the state has been reset already
      rename_i hcontroller
      have hstate := h.state_of_stopAbortController hstarting hcontroller hlive
      exact ⟨rfl, rfl, rfl, hstate.symm, rfl, rfl, if_pos hstate, rfl,
        fun j hj _ => setPhase_runs_of_ne hj⟩
    · exact ⟨rfl, rfl, rfl, rfl, rfl, rfl, rfl, rfl, fun j hj _ => setPhase_runs_of_ne hj⟩
  | _ => cases hquiet

/-- There is nothing to stop. -/
theorem untouched_of_stopItself (h : Inv s) (hnone : ∀ j, (s.runs j).live = false) :
    Untouched i s (apply i cached { s with frames := frames } .stopItself) := by
  have hstate : s.state = .stopped := by
    by_contra hstate
    obtain ⟨j, -, hlive⟩ := h.owned hstate
    rw [hnone j] at hlive
    cases hlive
  have hlisted : s.isUpdatingCommunityList = false := by
    rw [Bool.eq_false_iff, Ne, h.listed]
    rintro ⟨j, hlive, -⟩
    rw [hnone j] at hlive
    cases hlive
  refine ⟨rfl, rfl, rfl, hstate.symm, rfl, hlisted.symm, if_pos hstate, rfl, fun j hj hopen => ?_⟩
  have hstopped := live_eq_false_iff.1 (hnone j) hopen
  rw [apply, setPhase_runs_of_ne hj]
  simp only [CommunityList.stop, setState, h.aborted j hstopped, hstopped, Bool.true_or]
  exact (s.runs j).stop_of_stopped (h.aborted j hstopped) hstopped

/-- **A run that has been stopped changes nothing.** -/
theorem quiet {a : Action} (h : Inv s) (hactor : actor s a = some i) (hstopped : (s.runs i).stopped)
    (hstep : CommunityList.step env s a = some s') : Untouched i s s' := by
  have haborted := h.aborted i hstopped
  have hlive : (s.runs i).live = false := live_eq_false_iff.2 fun _ => hstopped
  cases a with
  | listenersReturned =>
    simp only [CommunityList.step] at hstep
    split at hstep
    · cases hstep
    rename_i j frames hframes
    rw [actor, hframes] at hactor
    cases hactor
    obtain ⟨o, ho, rfl⟩ := Option.map_eq_some_iff.1 hstep
    have hstarting : ∀ j, (s.runs j).phase ≠ .starting := by
      intro j hj
      obtain ⟨-, hjlive, hhead⟩ := h.starting j hj
      rw [hframes] at hhead
      cases hhead
      rw [hlive] at hjlive
      cases hjlive
    rcases isQuiet_of_listenersReturned haborted (hstarting i) ho with hquiet | ⟨hphase, rfl⟩
    · exact h.untouched_of_isQuiet hquiet hlive hstarting
    · exact h.untouched_of_stopItself ((h.failing i hphase).2.2 hstopped)
  | resume j answer cached =>
    cases hactor
    simp only [CommunityList.step] at hstep
    split at hstep
    · rename_i hframes
      obtain ⟨o, ho, rfl⟩ := Option.map_eq_some_iff.1 hstep
      refine h.untouched_of_isQuiet (isQuiet_of_resume haborted ho) hlive
        fun j hj => ?_
      have hhead := (h.starting j hj).2.2
      rw [hframes] at hhead
      cases hhead
    · cases hstep
  | _ => cases hactor

theorem sound (h : Inv s) : Sound env s := by
  have howner : ∀ i, (s.runs i).job.state ≠ .stopped → (s.runs i).isOwner := by
    intro i hi
    rw [Run.isOwner]
    cases hjob : (s.runs i).job with
    | load cid outer =>
      rw [hjob] at hi
      exact absurd rfl hi
    | _ => rfl
  have hstate : ∀ state, state ≠ .stopped →
      (s.state = state ↔ ∃ i, (s.runs i).live ∧ (s.runs i).job.state = state) := by
    intro state hstate
    constructor
    · intro hs
      obtain ⟨i, hi, hlive⟩ := h.owned (hs ▸ hstate)
      exact ⟨i, hlive, (h.state i hi hlive).symm.trans hs⟩
    · rintro ⟨i, hlive, hi⟩
      exact (h.state i (howner i (hi ▸ hstate)) hlive).trans hi
  constructor
  case quiet => exact fun a i s' hactor hstopped hstep => h.quiet hactor hstopped hstep
  case state => exact hstate
  case only => exact h.only
  case listed =>
    rw [h.listed, hstate .updating (by simp)]
    constructor
    · rintro ⟨i, hlive, hjob, hphase⟩
      refine ⟨⟨i, hlive, by rw [hjob]; rfl⟩, fun j hj => hphase ?_⟩
      obtain ⟨hjowner, hjlive, -⟩ := h.starting j hj
      obtain rfl := h.only i j (by simp [Run.isOwner, hjob]) hlive hjowner hjlive
      exact hj
    · rintro ⟨⟨i, hlive, hi⟩, hstarting⟩
      refine ⟨i, hlive, ?_, hstarting i⟩
      cases hjob : (s.runs i).job with
      | update => rfl
      | _ =>
        rw [hjob] at hi
        cases hi
  case held => exact h.held

end Inv

end Steps

/-! ## The runs do not interfere -/

/-- **Runs apart.**  In every run in which nothing is stopped while it starts, nothing is begun from
the last error of a run that has been stopped and no load begins beside another that has no run, a
run that has been stopped changes nothing, and the state, the set of the lists that are updating and
the record are those of the run that is neither finished nor stopped. -/
theorem runs_apart {env : Env} {cid : Option String} {as : List Action} {s : State}
    (hrun : Runs.Run (step env) (Ok env) (init cid) as s) : Sound env s :=
  hrun.invariant_of (fun _ h => h.sound) (fun _ _ _ h hok hstep => h.step hok hstep) (Inv.init cid)

/-- A list is fetched over RPC. -/
def remote : Env where
  signer := false
  pkcRpcClient := true
  cidOf record := record.json
  resolveAuthorNames := false

/-- The list is stopped and updated again before the record of the first load has come. -/
theorem runs_apart_of_late_record :
    ∃ s, Runs.Run (step remote) (Ok remote) (init (some "cid"))
        [.update, .listenersReturned, .resume 0 .done none, .stop, .update, .listenersReturned,
          .resume 1 (.verified ⟨"list", none⟩) none, .resume 1 .done none] s ∧
      s.record = none ∧ s.state = .updating ∧ Sound remote s := by
  have hrun : ∃ s, Runs.Run (step remote) (Ok remote) (init (some "cid"))
      [.update, .listenersReturned, .resume 0 .done none, .stop, .update, .listenersReturned,
        .resume 1 (.verified ⟨"list", none⟩) none, .resume 1 .done none] s ∧
      s.record = none ∧ s.state = .updating := by
    refine ⟨_, .cons (.of_update ?_) rfl (.cons .of_listenersReturned rfl
      (.cons (.of_resume ?_) rfl (.cons (.of_stop ?_) rfl (.cons (.of_update ?_) rfl
      (.cons .of_listenersReturned rfl (.cons (.of_resume ?_) rfl (.cons (.of_resume ?_) rfl
      (.nil _)))))))), ?_, ?_⟩
    · intro i hphase
      cases hphase
    · intro _ i cid hjob
      rcases i with _ | i
      · cases hjob
      · cases hjob
    · intro i hphase
      rcases i with _ | _ | i
      · cases hphase
      · cases hphase
      · cases hphase
    · intro i hphase
      rcases i with _ | _ | i
      · cases hphase
      · cases hphase
      · cases hphase
    · intro hbegins
      cases hbegins.1
    · intro hbegins
      cases hbegins.1
    · rfl
    · rfl
  obtain ⟨s, hrun, hrecord, hstate⟩ := hrun
  exact ⟨s, hrun, hrecord, hstate, runs_apart hrun⟩

/-- What the guard excludes.  A list is stopped and updated again from the last error of its run,
and that run stops the new one; a list is stopped from inside the `statechange` of its update, and
the run goes on; and of two loads without a run the first is not reached. -/
theorem not_apart :
    (∃ s, exec (step remote) (init (some "cid"))
        [.update, .listenersReturned, .resume 0 .done none, .resume 1 (.fetchFailed false) none,
          .resume 1 .done none, .resume 0 .done none, .stop, .update, .listenersReturned] = some s ∧
      ¬ Sound remote s) ∧
    (∃ s, exec (step remote) (init (some "cid")) [.update, .stop, .listenersReturned] = some s ∧
      ¬ Sound remote s) ∧
    ∃ s, exec (step remote) (init (some "cid"))
        [.load, .load, .stop, .resume 0 (.verified ⟨"list", none⟩) none] = some s ∧
      ¬ Sound remote s := by
  refine ⟨⟨_, rfl, fun h => ?_⟩, ⟨_, rfl, fun h => ?_⟩, ⟨_, rfl, fun h => ?_⟩⟩
  · have hstate := (h.quiet .listenersReturned 0 _ rfl rfl rfl).state
    cases hstate
  · have hupdating := (h.listed.1 rfl).1
    cases hupdating
  · have hrecord := (h.quiet (.resume 0 .done none) 0 _ rfl rfl rfl).record
    cases hrecord

end CommunityList
end Pkc

import Pkc.Community.MarkedCids

/-!
# Fetches that several instances share

A client has one table of the fetches that are under way.  An instance that asks for the record of a
community while another one is fetching it waits for the promise of that one, and gets what it gets.

* `State` has any number of instances, each a `LoadedCids.State`, and the fetch under way for the
  address that they have in common.
* The fetcher is the code of `LoadedCids`, and runs with what its own instance has: the stop signal,
  the loaded CIDs and the record.  The instances that join have nothing to do with it.
* `Receipt.Fair` is what a call may be answered with, and `Separate` the condition on a step.
* `outcomes_of_run`: a run answers all calls fairly if and only if its steps meet the condition.
-/

set_option autoImplicit false

namespace Pkc
namespace SharedFetches

open Runs LoadedCids

/-! ## The state -/

variable {V : Type}

/-- The promise in `_inflightFetches`. -/
structure Inflight (V : Type) where
  /-- The instance whose fetcher runs. -/
  first : V
  /-- The calls that found the promise there. -/
  joined : List V := []
  /-- History: the CIDs that the name of the community was resolved to. -/
  resolvedTo : List Cid := []
  /-- A settled promise stays in the map up to the next microtask. -/
  settled : Option Outcome := none
deriving DecidableEq, Repr

/-- A call of `fetchNewUpdateForCommunity` has returned or thrown. -/
structure Receipt (V : Type) where
  caller : V
  outcome : Outcome
  /-- The caller was stopped, or changed its key, since its update began. -/
  stopped : Bool
  /-- `updatedAt` of the record that the caller has. -/
  updatedAt : Nat
  resolvedTo : List Cid
deriving DecidableEq, Repr

/-- The instances of one community that a client has, and the fetch under way. -/
structure State (V : Type) where
  community : V → LoadedCids.State
  inflight : Option (Inflight V) := none
  /-- History. -/
  received : List (Receipt V) := []

/-- What an instance is created with: its address, its key, and a record if it was given one. -/
structure Created where
  address : String
  publicKey : Option String
  loaded : Option (Cid × CommunityIpfs)

def start (created : V → Created) : State V where
  community v := initial (created v).address (created v).publicKey (created v).loaded

/-! ## The steps -/

/-- A promise settles: whoever awaits it has the outcome. -/
def resume (outcome : Outcome) (c : LoadedCids.State) : LoadedCids.State :=
  match c.loop with
  | .fetching discard aborted none => { c with loop := .fetching discard aborted (some outcome) }
  | _ => c

def State.receipt (s : State V) (f : Inflight V) (outcome : Outcome) (v : V) : Receipt V where
  caller := v
  outcome := outcome
  stopped := (s.community v).loop.discards
  updatedAt := (s.community v).currentUpdatedAt
  resolvedTo := f.resolvedTo

/-- What happens next. -/
inductive Action (V : Type)
  /-- `fetchNewUpdateForCommunity`. -/
  | call (v : V)
  /-- A step of one instance, with the CID that an answer says the name resolves to. -/
  | own (v : V) (a : LoadedCids.Action) (resolvedTo : Option Cid)
  /-- The microtask that takes a settled promise out of the map. -/
  | forget

/-- The task whose answer is that it was aborted. -/
def abortedTask : LoadedCids.Action → Option Nat
  | .resolved i (.error .abortError) | .fetched i (.error .abortError)
  | .responded i (.error .abortError) | .body i (.error .abortError)
  | .walked i (.error .abortError) | .proved i (.error .abortError)
  | .verified i (.error .abortError) => some i
  | _ => none

/-- The CID in an answer. -/
def cidOf : LoadedCids.Action → Option Cid
  | .resolved _ (.ok (cid, _)) | .body _ (.ok cid) => some cid
  | _ => none

/-- An answer to a task of the attempt under way. -/
def answersCurrent (c : LoadedCids.State) : LoadedCids.Action → Bool
  | .resolved i _ | .responded i _ | .body i _ => c.tasks[i]?.any fun t => t.current
  | _ => false

/-- How the fetcher has just ended, if it has. -/
def outcomeOf (a : LoadedCids.Action) (c : LoadedCids.State) : Option Outcome :=
  match a with
  | .nameFailed e => some (.failed (.single e))
  | _ =>
    match c.loop with
    | .fetching _ _ outcome => outcome
    | _ => none

section Step

variable [DecidableEq V]

/-- The fetcher of the instance is running. -/
def State.fetches (s : State V) (v : V) : Bool :=
  s.inflight.any fun f => f.first = v && f.settled.isNone

/-- Whether the step can be next: the fetcher takes its steps only while it runs, and what carries
the stop signal is aborted only if that has fired. -/
def State.possible (s : State V) (v : V) (a : LoadedCids.Action) : Bool :=
  (match a with
    | .fetch .. | .abortAttempt => s.fetches v
    | .nameFailed e =>
      s.fetches v && (e ≠ .abortError || (s.community v).loop.discards)
    | _ => true) &&
  (abortedTask a).all fun i => (s.community v).tasks[i]?.all fun t =>
    !t.current || t.gateway.isSome || (s.community v).loop.discards

/-- `InflightFetchManager.withKey`. -/
def State.withKey (s : State V) (v : V) (discard : Bool) : State V :=
  match s.inflight with
  | none => { s with inflight := some { first := v } }
  | some f =>
    let c := { s.community v with loop := .fetching discard false f.settled }
    match f.settled with
    | none =>
      { s with
        community := Function.update s.community v c
        inflight := some { f with joined := f.joined ++ [v] } }
    | some outcome =>
      { s with
        community := Function.update s.community v c
        received := s.received ++ [s.receipt f outcome v] }

/-- The promise settles for every call that awaits it. -/
def State.settle (s : State V) (f : Inflight V) (c : LoadedCids.State) (outcome : Outcome) :
    State V where
  community v :=
    if v = f.first then c
    else if v ∈ f.joined then resume outcome (s.community v) else s.community v
  inflight := some { f with settled := some outcome }
  received := s.received ++ (f.first :: f.joined).map (s.receipt f outcome)

/-- A step of one instance.  If it is a step of the fetcher, the promise may settle. -/
def State.own (s : State V) (v : V) (a : LoadedCids.Action) (resolvedTo : Option Cid)
    (c : LoadedCids.State) : State V :=
  match s.inflight with
  | none => { s with community := Function.update s.community v c }
  | some f =>
    if f.first = v ∧ f.settled = none then
      match outcomeOf a c with
      | some outcome => s.settle f c outcome
      | none =>
        { s with
          community := Function.update s.community v c
          inflight := some { f with
            resolvedTo := f.resolvedTo ++
              if answersCurrent (s.community v) a then resolvedTo.toList else [] } }
    else { s with community := Function.update s.community v c }

/-- One step. -/
def step (env : Env) (s : State V) : Action V → Option (State V)
  | .call v =>
    match (s.community v).loop with
    | .retrying discard => if s.fetches v then none else some (s.withKey v discard)
    | _ => none
  | .own v a resolvedTo =>
    if s.possible v a && (cidOf a).all fun cid => resolvedTo = some cid then
      (LoadedCids.step env (s.community v) a).map (s.own v a resolvedTo)
    else none
  | .forget =>
    match s.inflight with
    | some { settled := some _, .. } => some { s with inflight := none }
    | _ => none

end Step

/-! ## The property and the condition -/

section Property

variable (env : Env) (ofCommunity : Cid → Prop)

/-- The record of the CID is not newer than that of the instance.  `ofCommunity` are the CIDs of
records that the community did publish. -/
def Holds (updatedAt : Nat) (cid : Cid) : Prop :=
  ofCommunity cid → ∀ record, env.parse cid = .ok record → record.updatedAt ≤ updatedAt

/-- What a call may be answered with. -/
structure Receipt.Fair (r : Receipt V) : Prop where
  aborted : r.outcome = .failed (.single .abortError) → r.stopped = true
  nothing : r.outcome = .nothing → ∀ cid ∈ r.resolvedTo, Holds env ofCommunity r.updatedAt cid

end Property

/-- The stop signal of an attempt has fired. -/
def aborted : Loop → Bool
  | .fetching _ aborted _ => aborted
  | _ => false

/-- The tasks that an attempt looks at when task `i` has ended. -/
def handledTasks (c : LoadedCids.State) (i : Nat) : List Task :=
  match c.tasks[i]? with
  | none => []
  | some t => (c.setHandled i t).currentTasks

/-- Where the task of an attempt over IPFS is. -/
def overIpfs (tasks : List Task) : Option Phase :=
  match tasks with
  | [{ gateway := none, ipnsName := _, phase, handled := _, current := _ }] => some phase
  | _ => none

/-- All gateways have failed. -/
def allFailed (gatewayFetches : List Task) : Bool :=
  gatewayFetches.all fun t => t.handled && t.phase.isFailed

/-- The step ends the fetch because the instance that fetches was stopped. -/
def EndsByAbort (c : LoadedCids.State) : LoadedCids.Action → Prop
  | .nameFailed e => e = .abortError
  | .abortAttempt => True
  | .handled i =>
    let tasks := handledTasks c i
    overIpfs tasks = some (.failed .abortError) ∨
      overIpfs tasks = none ∧ allFailed tasks = true ∧ aborted c.loop = true
  | _ => False

/-- The step ends the fetch because the instance that fetches has loaded the record before. -/
def EndsWithNothing (c : LoadedCids.State) : LoadedCids.Action → Prop
  | .handled i =>
    let tasks := handledTasks c i
    overIpfs tasks = some .confirmed ∨
      overIpfs tasks = none ∧ allFailed tasks = true ∧ aborted c.loop = false ∧
        (gatewayToError tasks).any LoadError.confirmsCurrentRecord = true
  | _ => False

/-- **The condition on a step.**  A fetch is not ended by the stop of its own instance while others
that were not stopped are waiting, and not as one that found nothing new while an instance whose
record is older is waiting; nor is one that has ended so joined by such an instance. -/
def Separate (env : Env) (ofCommunity : Cid → Prop) (s : State V) : Action V → Prop
  | .call v => ∀ f, s.inflight = some f →
    (f.settled = some (.failed (.single .abortError)) → (s.community v).loop.discards = true) ∧
    (f.settled = some .nothing →
      ∀ cid ∈ f.resolvedTo, Holds env ofCommunity (s.community v).currentUpdatedAt cid)
  | .own v a _ => ∀ f, s.inflight = some f → f.first = v → f.settled = none →
    (EndsByAbort (s.community v) a → ∀ w ∈ f.joined, (s.community w).loop.discards = true) ∧
    (EndsWithNothing (s.community v) a → ∀ w ∈ f.first :: f.joined, ∀ cid ∈ f.resolvedTo,
      Holds env ofCommunity (s.community w).currentUpdatedAt cid)
  | .forget => True

/-! ## What a step of an instance does -/

section Own

variable {env : Env} {c c' : LoadedCids.State} {i : Nat} {t : Task} {cid : Cid}
  {record : CommunityIpfs} {ipnsHops : List String} {etag : Option String} {P : Prop}

/-- One task goes on, and the loop stays where it is; `P` if the task was aborted. -/
def GoesOn (c : LoadedCids.State) (i : Nat) (P : Prop) (c' : LoadedCids.State) : Prop :=
  c'.loop = c.loop ∧ ∃ t phase, c.tasks[i]? = some t ∧
    c'.tasks = c.tasks.set i { t with phase := phase } ∧ (phase = .failed .abortError → P)

/-- The tasks and the loop are all that matters. -/
structure SameTasks (c c' : LoadedCids.State) : Prop where
  loop : c'.loop = c.loop
  tasks : c'.tasks = c.tasks

theorem SameTasks.goesOn {c₀ : LoadedCids.State} (h : SameTasks c c₀) (hgoes : GoesOn c₀ i P c') :
    GoesOn c i P c' := by
  obtain ⟨hloop, t, phase, ht, htasks, hP⟩ := hgoes
  rw [h.tasks] at ht htasks
  exact ⟨hloop.trans h.loop, t, phase, ht, htasks, hP⟩

theorem sameTasks_addCid (c : LoadedCids.State) (cid : Cid) : SameTasks c (c.addCid cid) :=
  ⟨rfl, rfl⟩

theorem sameTasks_addEtag (c : LoadedCids.State) (etag : Option String) :
    SameTasks c (c.addEtag etag) := ⟨rfl, rfl⟩

theorem goesOn_setPhase (ht : c.tasks[i]? = some t) {phase : Phase}
    (hP : phase = .failed .abortError → P) : GoesOn c i P (c.setPhase i t phase) :=
  ⟨rfl, t, phase, ht, rfl, hP⟩

/-- The task waits for something else, or was answered with what it knows. -/
theorem goesOn_of_ne (ht : c.tasks[i]? = some t) {phase : Phase}
    (hphase : phase ≠ .failed .abortError) : GoesOn c i P (c.setPhase i t phase) :=
  goesOn_setPhase ht fun h => absurd h hphase

variable (cid) in
theorem goesOn_reject (ht : c.tasks[i]? = some t) {e : LoadError} (hP : e = .abortError → P) :
    GoesOn c i P (c.reject i t cid e) :=
  ⟨rfl, t, .failed e, ht, rfl, fun h => hP (Phase.failed.inj h)⟩

theorem code_ne_abortError (code : ErrorCode) : LoadError.code code ≠ .abortError := by
  rintro ⟨⟩

theorem goesOn_findErrorInCommunityRecord (ht : c.tasks[i]? = some t) :
    GoesOn c i P (c.findErrorInCommunityRecord env i t cid record ipnsHops etag) := by
  have hsame : SameTasks c (c.adoptHops t ipnsHops) := ⟨rfl, rfl⟩
  rw [LoadedCids.State.findErrorInCommunityRecord]
  refine hsame.goesOn ?_
  split
  · exact goesOn_of_ne ht (by rintro ⟨⟩)
  · exact goesOn_reject cid ht fun h => absurd h (code_ne_abortError _)

theorem goesOn_proveAnchorClaimIfUnwalked (ht : c.tasks[i]? = some t) :
    GoesOn c i P (c.proveAnchorClaimIfUnwalked env i t cid record ipnsHops etag) := by
  rw [LoadedCids.State.proveAnchorClaimIfUnwalked]
  split
  · exact goesOn_findErrorInCommunityRecord ht
  · exact goesOn_of_ne ht (by rintro ⟨⟩)

/-- The CID is recorded before the body is parsed. -/
theorem goesOn_parsed (ht : c.tasks[i]? = some t) {next : CommunityIpfs → LoadedCids.State}
    (hnext : ∀ record, GoesOn (c.addCid cid) i P (next record)) :
    GoesOn c i P (match env.parse cid with
      | .error e => (c.addCid cid).reject i t cid e.toLoadError
      | .ok record => next record) := by
  refine (sameTasks_addCid c cid).goesOn ?_
  split
  · rename_i e _
    refine goesOn_reject cid ht fun h => ?_
    cases e <;> cases h
  · exact hnext _

theorem goesOn_receiveIpfs (ht : c.tasks[i]? = some t) :
    GoesOn c i P (c.receiveIpfs env i t cid ipnsHops) :=
  goesOn_parsed ht fun _ => goesOn_proveAnchorClaimIfUnwalked ht

theorem goesOn_receiveFromGateway (ht : c.tasks[i]? = some t) :
    GoesOn c i P (c.receiveFromGateway env i t cid etag) := by
  rw [LoadedCids.State.receiveFromGateway]
  split
  · exact goesOn_of_ne ht (by rintro ⟨⟩)
  · refine goesOn_parsed ht fun record => ?_
    rw [LoadedCids.State.determineTerminalIpnsName]
    split
    · exact goesOn_proveAnchorClaimIfUnwalked ht
    · exact goesOn_of_ne ht (by rintro ⟨⟩)

theorem goesOn_checkResponseHeadersIfOldCid (ht : c.tasks[i]? = some t) :
    GoesOn c i P (c.checkResponseHeadersIfOldCid env i t etag) := by
  have hknown : ∀ etag, GoesOn c i P ((c.addEtag etag).setPhase i t
      (.failed (.code .gatewayAbortingLoadingCommunityBecauseWeAlreadyLoadedThisRecord))) :=
    fun etag => (sameTasks_addEtag c etag).goesOn
      (goesOn_of_ne (c := c.addEtag etag) ht (by rintro ⟨⟩))
  rw [LoadedCids.State.checkResponseHeadersIfOldCid]
  split
  · exact goesOn_of_ne ht (by rintro ⟨⟩)
  · split
    · exact goesOn_of_ne ht (by rintro ⟨⟩)
    · split
      · exact goesOn_of_ne ht (by rintro ⟨⟩)
      · split
        · exact hknown _
        · exact goesOn_of_ne ht (by rintro ⟨⟩)

/-- An answer resumes its task. -/
def isAnswer : LoadedCids.Action → Option Nat
  | .resolved i _ | .fetched i _ | .responded i _ | .body i _ | .walked i _ | .proved i _
  | .verified i _ => some i
  | _ => none

theorem goesOn_step {a : LoadedCids.Action} (ha : isAnswer a = some i)
    (hstep : LoadedCids.step env c a = some c') : GoesOn c i (abortedTask a = some i) c' := by
  cases a with
  | resolved j answer =>
    obtain rfl := Option.some.inj ha
    obtain ⟨t, ht, hstep⟩ := Option.bind_eq_some_iff.1 hstep
    split at hstep <;> cases hstep
    · exact goesOn_setPhase ht fun h => by cases h; rfl
    · rename_i ipnsHops _ _
      have hsame : SameTasks c { c with ipnsHops := ipnsHops } := ⟨rfl, rfl⟩
      refine hsame.goesOn (goesOn_of_ne ht ?_)
      split <;> rintro ⟨⟩
  | fetched j answer =>
    obtain rfl := Option.some.inj ha
    obtain ⟨t, ht, hstep⟩ := Option.bind_eq_some_iff.1 hstep
    split at hstep <;> cases hstep
    · rename_i cid _ e _
      split
      · rename_i hlimit
        refine (sameTasks_addCid c cid).goesOn (goesOn_reject cid ht fun h => ?_)
        rw [h] at hlimit
        cases hlimit
      · exact goesOn_setPhase ht fun h => by cases h; rfl
    · exact goesOn_receiveIpfs ht
  | responded j answer =>
    obtain rfl := Option.some.inj ha
    obtain ⟨t, ht, hstep⟩ := Option.bind_eq_some_iff.1 hstep
    split at hstep <;> cases hstep
    · exact goesOn_setPhase ht fun h => by cases h; rfl
    · exact goesOn_checkResponseHeadersIfOldCid ht
  | body j answer =>
    obtain rfl := Option.some.inj ha
    obtain ⟨t, ht, hstep⟩ := Option.bind_eq_some_iff.1 hstep
    split at hstep <;> cases hstep
    · exact goesOn_setPhase ht fun h => by cases h; rfl
    · exact goesOn_receiveFromGateway ht
  | walked j answer =>
    obtain rfl := Option.some.inj ha
    obtain ⟨t, ht, hstep⟩ := Option.bind_eq_some_iff.1 hstep
    split at hstep <;> cases hstep
    · exact goesOn_reject _ ht fun h => by cases h; rfl
    · split
      · exact goesOn_proveAnchorClaimIfUnwalked ht
      · exact goesOn_reject _ ht fun h => absurd h (code_ne_abortError _)
  | proved j answer =>
    obtain rfl := Option.some.inj ha
    obtain ⟨t, ht, hstep⟩ := Option.bind_eq_some_iff.1 hstep
    split at hstep <;> cases hstep
    · exact goesOn_reject _ ht fun h => by cases h; rfl
    · split
      · exact goesOn_findErrorInCommunityRecord ht
      · exact goesOn_reject _ ht fun h => absurd h (code_ne_abortError _)
  | verified j answer =>
    obtain rfl := Option.some.inj ha
    obtain ⟨t, ht, hstep⟩ := Option.bind_eq_some_iff.1 hstep
    split at hstep <;> cases hstep
    · exact goesOn_reject _ ht fun h => by cases h; rfl
    · exact goesOn_reject _ ht fun h => absurd h (code_ne_abortError _)
    · rename_i etag _
      exact (sameTasks_addEtag c etag).goesOn (goesOn_of_ne (c := c.addEtag etag) ht (by rintro ⟨⟩))
  | updateOnce | nameFailed | fetch | handled | abortAttempt | finish | applyKeyMigration
  | stopUpdatingLoop => cases ha

/-! ## The instance that fetches -/

/-- An abort in the attempt under way is that of its own stop signal. -/
structure AbortOk (c : LoadedCids.State) : Prop where
  signal : aborted c.loop = true → c.loop.discards = true
  task : ∀ t ∈ c.tasks, t.current = true → t.gateway = none → t.phase = .failed .abortError →
    c.loop.discards = true
  idle : (∀ discard aborted outcome, c.loop ≠ .fetching discard aborted outcome) →
    ∀ t ∈ c.tasks, t.current = false

/-- Whether a step is possible for the stop signal. -/
def Aborts (c : LoadedCids.State) (a : LoadedCids.Action) : Prop :=
  ∀ i, abortedTask a = some i → ∀ t, c.tasks[i]? = some t → t.current = true → t.gateway = none →
    c.loop.discards = true

theorem abortOk_initial (address : String) (publicKey : Option String)
    (loaded : Option (Cid × CommunityIpfs)) : AbortOk (initial address publicKey loaded) where
  signal := by rintro ⟨⟩
  task := fun _ h => absurd h List.not_mem_nil
  idle := fun _ _ h => absurd h List.not_mem_nil

theorem AbortOk.goesOn (h : AbortOk c) (hgoes : GoesOn c i P c')
    (hP : P → ∀ t, c.tasks[i]? = some t → t.current = true → t.gateway = none →
      c.loop.discards = true) : AbortOk c' := by
  obtain ⟨hloop, t, phase, ht, htasks, hphase⟩ := hgoes
  constructor
  case signal => rw [hloop]; exact h.signal
  case task =>
    intro x hx hcurrent hgateway hfailed
    rw [hloop]
    rw [htasks] at hx
    rcases List.mem_or_eq_of_mem_set hx with hx | rfl
    · exact h.task x hx hcurrent hgateway hfailed
    · exact hP (hphase hfailed) t ht hcurrent hgateway
  case idle =>
    intro hidle x hx
    rw [hloop] at hidle
    rw [htasks] at hx
    rcases List.mem_or_eq_of_mem_set hx with hx | rfl
    · exact h.idle hidle x hx
    · exact h.idle hidle t (List.mem_of_getElem? ht)

/-- No attempt is under way. -/
theorem abortOk_of_idle (hloop : ∀ discard aborted outcome,
      c.loop ≠ .fetching discard aborted outcome)
    (htasks : ∀ t ∈ c.tasks, t.current = false) : AbortOk c where
  signal h := by
    cases hc : c.loop with
    | fetching discard aborted outcome => exact absurd hc (hloop _ _ _)
    | idle => rw [hc] at h; cases h
    | retrying discard => rw [hc] at h; cases h
  task t ht hcurrent := by
    rw [htasks t ht] at hcurrent
    cases hcurrent
  idle _ := htasks

theorem abort_of_discards (loop : Loop) (h : loop ≠ .idle) : loop.abort.discards = true := by
  cases loop with
  | idle => exact absurd rfl h
  | retrying | fetching => rfl

/-- The stop signal fires. -/
theorem AbortOk.abort (h : AbortOk c) (hloop : c'.loop = c.loop.abort)
    (htasks : c'.tasks = c.tasks) : AbortOk c' := by
  have hfetching : (∀ discard aborted outcome, c'.loop ≠ .fetching discard aborted outcome) →
      ∀ discard aborted outcome, c.loop ≠ .fetching discard aborted outcome := by
    intro hidle discard aborted outcome hc
    rw [hloop, hc] at hidle
    exact hidle _ _ _ rfl
  by_cases hc : c.loop = .idle
  · have hidle : ∀ discard aborted outcome, c.loop ≠ .fetching discard aborted outcome := by
      rw [hc]
      rintro _ _ _ ⟨⟩
    refine abortOk_of_idle ?_ (htasks ▸ h.idle hidle)
    rw [hloop, hc]
    rintro _ _ _ ⟨⟩
  · have hdiscards : c'.loop.discards = true := hloop ▸ abort_of_discards _ hc
    exact ⟨fun _ => hdiscards, fun _ _ _ _ _ => hdiscards,
      fun hidle => htasks ▸ h.idle (hfetching hidle)⟩

/-- The loop stays in its attempt. -/
theorem AbortOk.ofTasks {discard aborted : Bool} {outcome outcome' : Option Outcome}
    (h : AbortOk c) (hloop : c.loop = .fetching discard aborted outcome)
    (hloop' : c'.loop = .fetching discard aborted outcome')
    (htasks : ∀ x ∈ c'.tasks, ∃ t ∈ c.tasks,
      x.current = t.current ∧ x.gateway = t.gateway ∧ x.phase = t.phase) : AbortOk c' where
  signal := by rw [hloop']; intro hs; have := h.signal; rw [hloop] at this; exact this hs
  task x hx hcurrent hgateway hfailed := by
    obtain ⟨t, ht, hcurrent', hgateway', hphase⟩ := htasks x hx
    have hdiscards := h.task t ht (hcurrent' ▸ hcurrent) (hgateway' ▸ hgateway) (hphase ▸ hfailed)
    rw [hloop] at hdiscards
    rw [hloop']
    exact hdiscards
  idle hidle := absurd hloop' (hidle _ _ _)

theorem current_leaveAttempt {t : Task} (h : t ∈ c.leaveAttempt.tasks) : t.current = false := by
  obtain ⟨x, -, rfl⟩ := List.mem_map.1 h
  rfl

/-- What the attempt under way looks at when a task has ended. -/
theorem AbortOk.handled (h : AbortOk c) (ht : c.tasks[i]? = some t) {discard aborted : Bool}
    (hloop : c.loop = .fetching discard aborted none) :
    AbortOk ((c.setHandled i t).settle discard aborted) := by
  have htasks : ∀ x ∈ (c.setHandled i t).tasks, ∃ t' ∈ c.tasks,
      x.current = t'.current ∧ x.gateway = t'.gateway ∧ x.phase = t'.phase := by
    intro x hx
    rcases List.mem_or_eq_of_mem_set hx with hx | rfl
    · exact ⟨x, hx, rfl, rfl, rfl⟩
    · exact ⟨t, List.mem_of_getElem? ht, rfl, rfl, rfl⟩
  have hsettles := settles_settle (c.setHandled i t) discard aborted
  rcases hsettles.loop with hsame | ⟨outcome, hsame, -⟩
  · exact h.ofTasks hloop (hsame.trans hloop) (hsettles.tasks ▸ htasks)
  · exact h.ofTasks hloop hsame (hsettles.tasks ▸ htasks)

theorem AbortOk.step {a : LoadedCids.Action} (h : AbortOk c) (haborts : Aborts c a)
    (hstep : LoadedCids.step env c a = some c') : AbortOk c' := by
  have hanswer : ∀ i, isAnswer a = some i → AbortOk c' := fun i ha =>
    h.goesOn (goesOn_step ha hstep) fun hab t => haborts i hab t
  cases a with
  | resolved | fetched | responded | body | walked | proved | verified => exact hanswer _ rfl
  | updateOnce =>
    rw [LoadedCids.step] at hstep
    split at hstep <;> cases hstep
    rename_i hloop
    refine abortOk_of_idle (by rintro _ _ _ ⟨⟩) (h.idle ?_)
    rw [hloop]
    rintro _ _ _ ⟨⟩
  | nameFailed e =>
    rw [LoadedCids.step] at hstep
    split at hstep <;> cases hstep
    rename_i hloop
    have hidle : ∀ discard aborted outcome, c.loop ≠ .fetching discard aborted outcome := by
      rw [hloop]
      rintro _ _ _ ⟨⟩
    split
    · exact h
    · exact abortOk_of_idle (by rintro _ _ _ ⟨⟩) (h.idle hidle)
  | fetch ipnsName transport =>
    rw [LoadedCids.step] at hstep
    split at hstep <;> cases hstep
    rename_i hloop
    have hold : ∀ t ∈ c.tasks, t.current = false := by
      refine h.idle ?_
      rw [hloop]
      rintro _ _ _ ⟨⟩
    have hsame : c.addUpdateCid.tasks = c.tasks := by
      rw [LoadedCids.State.addUpdateCid]
      split <;> rfl
    refine ⟨by rintro ⟨⟩, fun t ht hcurrent _ hfailed => ?_, fun hidle => absurd rfl (hidle _ _ _)⟩
    rcases List.mem_append.1 ht with ht | ht
    · rw [hold t (hsame ▸ ht)] at hcurrent
      cases hcurrent
    · cases transport with
      | p2p =>
        obtain rfl := List.mem_singleton.1 ht
        cases hfailed
      | gateways urls =>
        obtain ⟨url, -, rfl⟩ := List.mem_map.1 ht
        cases hfailed
  | handled i =>
    obtain ⟨t, ht, hstep⟩ := Option.bind_eq_some_iff.1 hstep
    split at hstep
    · split at hstep <;> cases hstep
      · rename_i hloop
        exact h.handled ht hloop
      · rename_i hloop
        refine h.ofTasks hloop hloop fun x hx => ?_
        rcases List.mem_or_eq_of_mem_set hx with hx | rfl
        · exact ⟨x, hx, rfl, rfl, rfl⟩
        · exact ⟨t, List.mem_of_getElem? ht, rfl, rfl, rfl⟩
    · cases hstep
  | abortAttempt =>
    rw [LoadedCids.step] at hstep
    split at hstep <;> cases hstep
    rename_i hloop
    exact h.ofTasks hloop rfl fun x hx => ⟨x, hx, rfl, rfl, rfl⟩
  | finish =>
    rw [LoadedCids.step] at hstep
    split at hstep <;> cases hstep
    rename_i discard _ outcome _
    have hfinishes := finishes_finish c discard outcome
    exact abortOk_of_idle hfinishes.loop fun t ht => current_leaveAttempt (hfinishes.tasks ▸ ht)
  | applyKeyMigration =>
    cases hstep
    exact h.abort rfl rfl
  | stopUpdatingLoop =>
    cases hstep
    exact h.abort rfl rfl

/-- The attempt under way has not ended. -/
def Unsettled (loop : Loop) : Prop := ∀ discard aborted outcome,
  loop ≠ .fetching discard aborted (some outcome)

theorem overIpfs_eq_none {tasks : List Task}
    (h : ∀ ipnsName phase handled current,
      tasks = [{ gateway := none, ipnsName, phase, handled, current }] → False) :
    overIpfs tasks = none := by
  rw [overIpfs]
  exact h

/-- What the outcome of an attempt is, once a task has been handled. -/
theorem outcomeOf_settle {s : LoadedCids.State} {discard aborted : Bool}
    (hloop : s.loop = .fetching discard aborted none) :
    (outcomeOf (.handled i) (s.settle discard aborted) = some (.failed (.single .abortError)) ↔
      overIpfs s.currentTasks = some (.failed .abortError) ∨
        overIpfs s.currentTasks = none ∧ allFailed s.currentTasks = true ∧ aborted = true) ∧
    (outcomeOf (.handled i) (s.settle discard aborted) = some .nothing ↔
      overIpfs s.currentTasks = some .confirmed ∨
        overIpfs s.currentTasks = none ∧ allFailed s.currentTasks = true ∧ aborted = false ∧
          (gatewayToError s.currentTasks).any LoadError.confirmsCurrentRecord = true) := by
  rw [LoadedCids.State.settle]
  split
  · -- over IPFS
    rename_i phase _ _ htasks
    have hphase : overIpfs s.currentTasks = some phase := by rw [htasks]; rfl
    rw [hphase]
    cases phase <;> simp [outcomeOf, hloop]
  · rename_i hgateways
    have hfailed : (s.currentTasks.all fun t => t.handled && t.phase.isFailed) =
      allFailed s.currentTasks := rfl
    rw [overIpfs_eq_none hgateways, hfailed]
    cases allFailed s.currentTasks with
    | false =>
      rw [if_neg Bool.false_ne_true]
      split
      · simp [outcomeOf, hloop]
      · simp [outcomeOf]
    | true =>
      rw [if_pos rfl]
      cases aborted with
      | true => simp [outcomeOf]
      | false =>
        dsimp only
        cases hconfirms : (gatewayToError s.currentTasks).any LoadError.confirmsCurrentRecord <;>
          simp [outcomeOf]

theorem outcomeOf_eq_none {a : LoadedCids.Action} (ha : ∀ e, a ≠ .nameFailed e)
    (h : Unsettled c.loop) : outcomeOf a c = none := by
  unfold outcomeOf
  split
  · exact absurd rfl (ha _)
  · split
    · rename_i discard aborted outcome hloop
      cases outcome with
      | none => rfl
      | some outcome => exact absurd hloop (h _ _ _)
    · rfl

theorem unsettled_of_outcomeOf {a : LoadedCids.Action} (h : outcomeOf a c = none) :
    Unsettled c.loop := by
  intro discard aborted outcome hloop
  unfold outcomeOf at h
  split at h
  · cases h
  · rw [hloop] at h
    cases h

theorem unsettled_abort {loop : Loop} (h : Unsettled loop) : Unsettled loop.abort := by
  cases loop with
  | idle | retrying => rintro _ _ _ ⟨⟩
  | fetching discard aborted outcome =>
    rintro _ _ o heq
    cases outcome with
    | none => cases heq
    | some outcome => exact h discard aborted outcome rfl

/-- **How a fetch ends.**  Apart from a record and from errors of the network, it ends as
`EndsByAbort` and `EndsWithNothing` say. -/
theorem outcomeOf_step {a : LoadedCids.Action} (hstep : LoadedCids.step env c a = some c')
    (h : Unsettled c.loop) :
    (outcomeOf a c' = some (.failed (.single .abortError)) ↔ EndsByAbort c a) ∧
      (outcomeOf a c' = some .nothing ↔ EndsWithNothing c a) := by
  have hno : (∀ e, a ≠ .nameFailed e) → Unsettled c'.loop → ¬ EndsByAbort c a →
      ¬ EndsWithNothing c a →
      (outcomeOf a c' = some (.failed (.single .abortError)) ↔ EndsByAbort c a) ∧
        (outcomeOf a c' = some .nothing ↔ EndsWithNothing c a) := by
    intro hname hunsettled habort hnothing
    rw [outcomeOf_eq_none hname hunsettled]
    exact ⟨by simpa using habort, by simpa using hnothing⟩
  have hanswer : ∀ i, isAnswer a = some i → Unsettled c'.loop := fun i ha =>
    (goesOn_step ha hstep).1 ▸ h
  cases a with
  | resolved i | fetched i | responded i | body i | walked i | proved i | verified i =>
    exact hno (by rintro _ ⟨⟩) (hanswer i rfl) id id
  | nameFailed e =>
    simp [outcomeOf, EndsByAbort, EndsWithNothing]
  | handled i =>
    obtain ⟨t, ht, hstep⟩ := Option.bind_eq_some_iff.1 hstep
    have htasks : handledTasks c i = (c.setHandled i t).currentTasks := by rw [handledTasks, ht]
    split at hstep
    · split at hstep <;> cases hstep
      · rename_i discard hasAborted hloop
        have hends := outcomeOf_settle (i := i) (s := c.setHandled i t) hloop
        rw [EndsByAbort, EndsWithNothing, htasks, hloop]
        exact hends
      · rename_i hloop
        exact absurd hloop (h _ _ _)
    · cases hstep
  | abortAttempt =>
    rw [LoadedCids.step] at hstep
    split at hstep <;> cases hstep
    simp [outcomeOf, EndsByAbort, EndsWithNothing]
  | updateOnce | fetch =>
    rw [LoadedCids.step] at hstep
    split at hstep <;> cases hstep
    exact hno (by rintro _ ⟨⟩) (by rintro _ _ _ ⟨⟩) id id
  | finish =>
    rw [LoadedCids.step] at hstep
    split at hstep <;> cases hstep
    rename_i hloop
    exact absurd hloop (h _ _ _)
  | applyKeyMigration | stopUpdatingLoop =>
    cases hstep
    exact hno (by rintro _ ⟨⟩) (unsettled_abort h) id id

/-- Joining a fetch. -/
theorem AbortOk.joins {discard : Bool} (h : AbortOk c) (hloop : c.loop = .retrying discard)
    (outcome : Option Outcome) : AbortOk { c with loop := .fetching discard false outcome } where
  signal := by rintro ⟨⟩
  task t ht hcurrent := by
    have hold : t.current = false := by
      refine h.idle ?_ t ht
      rw [hloop]
      rintro _ _ _ ⟨⟩
    rw [hold] at hcurrent
    cases hcurrent
  idle hidle := absurd rfl (hidle _ _ _)

theorem AbortOk.resume (h : AbortOk c) (outcome : Outcome) : AbortOk (resume outcome c) := by
  rw [SharedFetches.resume]
  split
  · rename_i hloop
    exact h.ofTasks hloop rfl fun x hx => ⟨x, hx, rfl, rfl, rfl⟩
  · exact h

/-- The owner of a fetch that its stop signal ends was stopped. -/
theorem AbortOk.discards_of_ends {a : LoadedCids.Action} (h : AbortOk c)
    (hname : a = .nameFailed .abortError → c.loop.discards = true)
    (hstep : LoadedCids.step env c a = some c') (hends : EndsByAbort c a) :
    c.loop.discards = true := by
  cases a with
  | nameFailed e =>
    obtain rfl : e = .abortError := hends
    exact hname rfl
  | abortAttempt =>
    rw [LoadedCids.step] at hstep
    split at hstep <;> cases hstep
    rename_i hloop
    rw [hloop]
    rfl
  | handled i =>
    obtain ⟨t, ht, -⟩ := Option.bind_eq_some_iff.1 hstep
    have htasks : handledTasks c i = (c.setHandled i t).currentTasks := by rw [handledTasks, ht]
    rw [EndsByAbort, htasks] at hends
    rcases hends with hp2p | ⟨-, -, hsignal⟩
    · unfold overIpfs at hp2p
      split at hp2p
      · rename_i ipnsName phase handled current heq
        cases hp2p
        have hmem := List.mem_filter.1 (heq ▸ List.mem_singleton_self
          ({ gateway := none, ipnsName, phase := .failed .abortError, handled, current } : Task))
        rcases List.mem_or_eq_of_mem_set hmem.1 with hx | hx
        · exact h.task _ hx hmem.2 rfl rfl
        · exact h.task t (List.mem_of_getElem? ht) ((congrArg Task.current hx).symm.trans hmem.2)
            (congrArg Task.gateway hx).symm (congrArg Task.phase hx).symm
      · cases hp2p
    · exact h.signal hsignal
  | resolved | fetched | responded | body | walked | proved | verified | updateOnce | fetch
  | finish | applyKeyMigration | stopUpdatingLoop => exact hends.elim

end Own

/-! ## Runs -/

section Runs

variable {env : Env} {ofCommunity : Cid → Prop} {s s' t : State V} {f : Inflight V} {v : V}
  {c c' : LoadedCids.State}

/-- What holds in every state. -/
structure Inv (s : State V) : Prop where
  abortOk : ∀ v, AbortOk (s.community v)
  unsettled : ∀ f, s.inflight = some f → f.settled = none → Unsettled (s.community f.first).loop

theorem inv_start (created : V → Created) : Inv (start created) where
  abortOk _ := abortOk_initial _ _ _
  unsettled := by rintro _ ⟨⟩

/-- What a step answers calls with. -/
def Answers (env : Env) (ofCommunity : Cid → Prop) (s : State V) (a : Action V) (s' : State V) :
    Prop :=
  ∃ news, s'.received = s.received ++ news ∧
    ((∀ r ∈ news, r.Fair env ofCommunity) ↔ Separate env ofCommunity s a)

theorem Answers.none {a : Action V} (hreceived : s'.received = s.received)
    (h : Separate env ofCommunity s a) : Answers env ofCommunity s a s' :=
  ⟨[], by rw [hreceived, List.append_nil], by simpa using h⟩

theorem fair_receipt {outcome : Outcome} :
    (s.receipt f outcome v).Fair env ofCommunity ↔
      (outcome = .failed (.single .abortError) → (s.community v).loop.discards = true) ∧
      (outcome = .nothing → ∀ cid ∈ f.resolvedTo,
        Holds env ofCommunity (s.community v).currentUpdatedAt cid) :=
  ⟨fun h => ⟨h.aborted, h.nothing⟩, fun h => ⟨h.1, h.2⟩⟩

variable [DecidableEq V]

theorem abortOk_update (h : Inv s) (hc : AbortOk c) (w : V) :
    AbortOk (Function.update s.community v c w) := by
  by_cases hw : w = v
  · subst hw
    rwa [Function.update_self]
  · rw [Function.update_of_ne hw]
    exact h.abortOk w

theorem fetches_iff : s.fetches v = true ↔
    ∃ f, s.inflight = some f ∧ f.first = v ∧ f.settled = none := by
  rw [State.fetches, Option.any_eq_true]
  simp

/-- A call begins a fetch, joins one, or finds one that has settled. -/
theorem step_call (h : Inv s) {discard : Bool} (hloop : (s.community v).loop = .retrying discard)
    (hfetches : s.fetches v = false) :
    Inv (s.withKey v discard) ∧
      Answers env ofCommunity s (.call v) (s.withKey v discard) := by
  have hjoins := fun outcome => (h.abortOk v).joins hloop outcome
  rw [State.withKey]
  split
  · rename_i hinflight
    refine ⟨⟨h.abortOk, ?_⟩, .none rfl fun f hf => ?_⟩
    · rintro _ ⟨⟩ -
      rw [hloop]
      rintro _ _ _ ⟨⟩
    · rw [hinflight] at hf
      cases hf
  · rename_i f hinflight
    dsimp only
    split
    · rename_i hsettled
      refine ⟨⟨fun w => abortOk_update h (hsettled ▸ hjoins _) w, ?_⟩, .none rfl fun f' hf => ?_⟩
      · rintro _ ⟨⟩ -
        have hne : f.first ≠ v := fun hv => by
          rw [fetches_iff.2 ⟨f, hinflight, hv, hsettled⟩] at hfetches
          cases hfetches
        dsimp only
        rw [Function.update_of_ne hne]
        exact h.unsettled f hinflight hsettled
      · rw [hinflight, Option.some.injEq] at hf
        rw [← hf, hsettled]
        exact ⟨by rintro ⟨⟩, by rintro ⟨⟩⟩
    · rename_i outcome hsettled
      refine ⟨⟨fun w => abortOk_update h (hsettled ▸ hjoins _) w, fun f' hf hnone => ?_⟩,
        [s.receipt f outcome v], rfl, ?_⟩
      · rw [hinflight, Option.some.injEq] at hf
        rw [← hf, hsettled] at hnone
        cases hnone
      · rw [List.forall_mem_singleton, fair_receipt]
        constructor
        · intro hfair f' hf
          rw [hinflight, Option.some.injEq] at hf
          rw [← hf, hsettled]
          exact ⟨fun ho => hfair.1 (Option.some.inj ho), fun ho => hfair.2 (Option.some.inj ho)⟩
        · intro hseparate
          obtain ⟨habort, hnothing⟩ := hseparate f hinflight
          exact ⟨fun ho => habort (ho ▸ hsettled), fun ho => hnothing (ho ▸ hsettled)⟩

/-- Where the stop signal may end a request, and where the name may fail. -/
theorem aborts_of_possible {a : LoadedCids.Action} (h : s.possible v a = true) :
    Aborts (s.community v) a ∧
      (a = .nameFailed .abortError → (s.community v).loop.discards = true) := by
  unfold State.possible at h
  rw [Bool.and_eq_true] at h
  constructor
  · intro i hi t ht hcurrent hgateway
    have htask := h.2
    rw [hi, Option.all_some, ht, Option.all_some, hcurrent, hgateway] at htask
    simpa using htask
  · rintro rfl
    have hname := h.1
    simp at hname
    exact hname.2

/-- The steps of an instance that does not fetch answer no call. -/
theorem step_own_apart (h : Inv s) {a : LoadedCids.Action} {resolvedTo : Option Cid}
    (hc : AbortOk c) (hapart : ∀ f, s.inflight = some f → ¬ (f.first = v ∧ f.settled = none)) :
    Inv { s with community := Function.update s.community v c } ∧
      Answers env ofCommunity s (.own v a resolvedTo)
        { s with community := Function.update s.community v c } := by
  refine ⟨⟨fun w => abortOk_update h hc w, fun f hf hnone => ?_⟩,
    .none rfl fun f hf hfirst hnone => absurd ⟨hfirst, hnone⟩ (hapart f hf)⟩
  have hne : f.first ≠ v := fun hfirst => hapart f hf ⟨hfirst, hnone⟩
  dsimp only
  rw [Function.update_of_ne hne]
  exact h.unsettled f hf hnone

/-- The fetch settles: this is where outcomes pass from one instance to others. -/
theorem step_own_settles (h : Inv s) {a : LoadedCids.Action} {resolvedTo : Option Cid}
    {outcome : Outcome} (hpossible : s.possible v a = true)
    (hstep : LoadedCids.step env (s.community v) a = some c) (hinflight : s.inflight = some f)
    (hfirst : f.first = v) (hsettled : f.settled = none) (houtcome : outcomeOf a c = some outcome) :
    Inv (s.settle f c outcome) ∧
      Answers env ofCommunity s (.own v a resolvedTo) (s.settle f c outcome) := by
  obtain ⟨haborts, hname⟩ := aborts_of_possible hpossible
  have hunsettled : Unsettled (s.community v).loop := hfirst ▸ h.unsettled f hinflight hsettled
  obtain ⟨habort, hnothing⟩ := outcomeOf_step hstep hunsettled
  rw [houtcome, Option.some.injEq] at habort hnothing
  refine ⟨⟨fun w => ?_, ?_⟩, _, rfl, ?_⟩
  · rw [State.settle]
    dsimp only
    split
    · exact (h.abortOk v).step haborts hstep
    · split
      · exact (h.abortOk w).resume outcome
      · exact h.abortOk w
  · rintro _ ⟨⟩ ⟨⟩
  · rw [List.forall_mem_map]
    simp only [fair_receipt]
    constructor
    · intro hfair f' hf _ _
      rw [hinflight, Option.some.injEq] at hf
      subst hf
      exact ⟨fun hends w hw => (hfair w (List.mem_cons_of_mem _ hw)).1 (habort.2 hends),
        fun hends w hw => (hfair w hw).2 (hnothing.2 hends)⟩
    · intro hseparate w hw
      obtain ⟨hjoined, hall⟩ := hseparate f hinflight hfirst hsettled
      refine ⟨fun ho => ?_, fun ho => hall (hnothing.1 ho) w hw⟩
      rcases List.mem_cons.1 hw with rfl | hw
      · -- the instance that fetches was itself stopped
        rw [hfirst]
        exact (h.abortOk v).discards_of_ends hname hstep (habort.1 ho)
      · exact hjoined (habort.1 ho) w hw

theorem step_own (h : Inv s) {a : LoadedCids.Action} {resolvedTo : Option Cid}
    (hpossible : s.possible v a = true)
    (hstep : LoadedCids.step env (s.community v) a = some c) :
    Inv (s.own v a resolvedTo c) ∧
      Answers env ofCommunity s (.own v a resolvedTo) (s.own v a resolvedTo c) := by
  have hc : AbortOk c := (h.abortOk v).step (aborts_of_possible hpossible).1 hstep
  rw [State.own]
  split
  · rename_i hinflight
    refine step_own_apart h hc fun f hf => ?_
    rw [hinflight] at hf
    cases hf
  · rename_i f hinflight
    split
    · rename_i hfetches
      obtain ⟨hfirst, hsettled⟩ := hfetches
      split
      · rename_i outcome houtcome
        exact step_own_settles h hpossible hstep hinflight hfirst hsettled houtcome
      · rename_i houtcome
        have hunsettled : Unsettled (s.community v).loop :=
          hfirst ▸ h.unsettled f hinflight hsettled
        obtain ⟨habort, hnothing⟩ := outcomeOf_step hstep hunsettled
        rw [houtcome] at habort hnothing
        refine ⟨⟨fun w => abortOk_update h hc w, ?_⟩, .none rfl fun _ _ _ _ => ?_⟩
        · rintro _ ⟨⟩ -
          dsimp only
          rw [hfirst, Function.update_self]
          exact unsettled_of_outcomeOf houtcome
        · exact ⟨fun hends => absurd (habort.2 hends) (by rintro ⟨⟩),
            fun hends => absurd (hnothing.2 hends) (by rintro ⟨⟩)⟩
    · rename_i hapart
      refine step_own_apart h hc fun f' hf => ?_
      rw [hinflight, Option.some.injEq] at hf
      exact hf ▸ hapart

variable (ofCommunity) in
/-- **One step.**  The calls that it answers are answered fairly if and only if it meets the
condition. -/
theorem step_answers {a : Action V} (h : Inv s) (hstep : step env s a = some s') :
    Inv s' ∧ Answers env ofCommunity s a s' := by
  cases a with
  | call v =>
    rw [step] at hstep
    split at hstep
    · rename_i discard hloop
      split at hstep <;> cases hstep
      rename_i hfetches
      exact step_call h hloop (Bool.eq_false_iff.2 hfetches)
    · cases hstep
  | own v a resolvedTo =>
    rw [step] at hstep
    split at hstep
    · rename_i hpossible
      obtain ⟨c, hc, rfl⟩ := Option.map_eq_some_iff.1 hstep
      exact step_own h (Bool.and_eq_true_iff.1 hpossible).1 hc
    · cases hstep
  | forget =>
    rw [step] at hstep
    split at hstep <;> cases hstep
    exact ⟨⟨h.abortOk, by rintro _ ⟨⟩⟩, .none rfl trivial⟩

variable (ofCommunity) in
/-- From a step to a run. -/
theorem run_answers {actions : List (Action V)} (hrun : Run (step env) anyStep s actions t)
    (h : Inv s) : ∃ news, t.received = s.received ++ news ∧
      ((∀ r ∈ news, r.Fair env ofCommunity) ↔
        Run (step env) (Separate env ofCommunity) s actions t) := by
  induction hrun with
  | nil s => exact ⟨[], (List.append_nil _).symm, by simpa using .nil s⟩
  | @cons s s' t a actions _ hstep hrun ih =>
    obtain ⟨h', news, hreceived, hfair⟩ := step_answers ofCommunity h hstep
    obtain ⟨news', hreceived', hfair'⟩ := ih h'
    refine ⟨news ++ news', by rw [hreceived', hreceived, List.append_assoc], ?_⟩
    rw [List.forall_mem_append, hfair, hfair']
    constructor
    · rintro ⟨hseparate, hrest⟩
      exact .cons hseparate hstep hrest
    · rintro (_ | ⟨hseparate, hstep', hrest⟩)
      rw [hstep, Option.some.injEq] at hstep'
      exact ⟨hseparate, hstep' ▸ hrest⟩

/-- **Outcomes over whole runs.**  Calls are answered fairly, in every state of a run, if and only
if the steps of the run meet the condition. -/
theorem outcomes_of_run (env : Env) (ofCommunity : Cid → Prop) (created : V → Created)
    (actions : List (Action V)) (t : State V)
    (hrun : Run (step env) anyStep (start created) actions t) :
    (∀ r ∈ t.received, r.Fair env ofCommunity) ↔
      Run (step env) (Separate env ofCommunity) (start created) actions t := by
  obtain ⟨news, hreceived, hfair⟩ := run_answers ofCommunity hrun (inv_start created)
  rw [hreceived, start, List.nil_append]
  exact hfair

end Runs

/-! ## Two instances -/

/-- The records of a community that publishes for itself. -/
def recordAt (updatedAt : Nat) (hpos : 0 < updatedAt) : CommunityIpfs where
  updatedAt := updatedAt
  updatedAt_pos := hpos
  signatureAddress := "12D3KooCommunity"
  anchor := none
  name := none

def oldRecord : CommunityIpfs := recordAt 100 (by decide)

def newRecord : CommunityIpfs := recordAt 200 (by decide)

def published : Env where
  parse cid := .ok (if cid = "QmNew" then newRecord else oldRecord)
  cidOfEtag _ := none
  areEquivalentCommunityAddresses a b := a = b

/-- The second instance has the old record, the first one what it is given. -/
def twoInstances (loaded : Option (Cid × CommunityIpfs)) (second : Bool) : Created where
  address := "12D3KooCommunity"
  publicKey := some "12D3KooCommunity"
  loaded := if second then some ("QmOld", oldRecord) else loaded

/-- The first instance begins to fetch, and the second one joins. -/
def joinedFetch : List (Action Bool) :=
  [.own false .updateOnce none, .call false, .own false (.fetch "12D3KooCommunity" .p2p) none,
    .own true .updateOnce none, .call true]

/-- The name resolves to the new record. -/
def resolvedToNew : Action Bool :=
  .own false (.resolved 0 (.ok ("QmNew", ["12D3KooCommunity"]))) (some "QmNew")

/-- The fetch goes through. -/
def loadedNew : List (Action Bool) :=
  joinedFetch ++ [resolvedToNew, .own false (.fetched 0 (.ok ())) none,
    .own false (.verified 0 (.ok true)) none, .own false (.handled 0) none]

/-- The first instance is stopped. -/
def stoppedFirst : List (Action Bool) :=
  joinedFetch ++ [.own false .stopUpdatingLoop none,
    .own false (.resolved 0 (.error .abortError)) none, .own false (.handled 0) none]

/-- The first instance has the new record already. -/
def knownToFirst : List (Action Bool) :=
  joinedFetch ++ [resolvedToNew, .own false (.handled 0) none]

theorem outcomes_of_loadedNew : ∃ t, exec (step published) (start (twoInstances none)) loadedNew =
      some t ∧
    t.received.map (fun r => (r.caller, r.outcome)) =
      [(false, .community newRecord "QmNew"), (true, .community newRecord "QmNew")] ∧
    ((∀ r ∈ t.received, r.Fair published fun _ => True) ↔
      Run (step published) (Separate published fun _ => True) (start (twoInstances none))
        loadedNew t) :=
  ⟨_, rfl, rfl, outcomes_of_run published (fun _ => True) _ loadedNew _ (Run.of_exec rfl)⟩

/-- **Outcomes leak**: an instance that was not stopped is answered with the abort of another one,
and an instance with an old record that there is nothing new. -/
theorem outcomes_leak :
    (¬ ∀ (created : Bool → Created) (actions : List (Action Bool)) (t : State Bool),
      Run (step published) anyStep (start created) actions t →
        ∀ r ∈ t.received, r.outcome = .failed (.single .abortError) → r.stopped = true) ∧
    ¬ ∀ (created : Bool → Created) (actions : List (Action Bool)) (t : State Bool),
      Run (step published) anyStep (start created) actions t →
        ∀ r ∈ t.received, r.outcome = .nothing →
          ∀ cid ∈ r.resolvedTo, Holds published (fun _ => True) r.updatedAt cid := by
  constructor
  · intro h
    have hstopped := h (twoInstances none) stoppedFirst _ (Run.of_exec rfl)
      ⟨true, .failed (.single .abortError), false, 100, []⟩
      (List.mem_cons_of_mem _ (List.mem_singleton_self _)) rfl
    cases hstopped
  · intro h
    have hle := h (twoInstances (some ("QmNew", newRecord))) knownToFirst _ (Run.of_exec rfl)
      ⟨true, .nothing, false, 100, ["QmNew"]⟩
      (List.mem_cons_of_mem _ (List.mem_singleton_self _)) rfl "QmNew"
      (List.mem_singleton_self _) trivial newRecord rfl
    revert hle
    decide

end SharedFetches
end Pkc

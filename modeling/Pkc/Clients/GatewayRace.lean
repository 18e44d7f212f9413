import Mathlib.Algebra.GroupWithZero.Nat
import Mathlib.Algebra.Order.BigOperators.Group.List
import Mathlib.Algebra.Order.Group.Nat
import Pkc.Library.Runs

/-!
# Asking several gateways at once

What a gateway has is asked of all of them, three at a time, and the first that answers with what
passes the checks is enough.  Each gateway has a timer from the beginning on, also while it waits
for its turn.

* `State` has the gateways in the order in which they are asked and what the caller gets; `step` is
  what may happen: a gateway's turn comes, it answers or does not, its timer goes off, the caller
  aborts, and the race ends.
* `Inv` holds in every state of every run: what is returned has passed the checks, and nothing is
  left active once the race has ended.
* `progress` and `length_le_remaining`: the race cannot get stuck and cannot go on forever.
* `Asked` is that nobody is timed out before being asked; it holds as long as no timer goes off for
  a gateway that waits (`Ok`), and always with up to three gateways (`Run.ok_of_length_le`).
* `asks_everyone` is all of it together.
-/

set_option autoImplicit false

namespace Pkc
namespace GatewayRace

open Runs

variable {E : Type}

/-! ## One answer -/

inductive IpfsType
  | ipfs | ipns
deriving DecidableEq, Repr

inductive RecordPkcType
  | comment | commentUpdate | pageIpfs | community | other
deriving DecidableEq, Repr

/-- What is asked for, with the checks of other code. -/
structure LoadOpts (E : Type) where
  recordIpfsType : IpfsType
  recordPKCType : RecordPkcType
  root : String
  path : Option String
  maxFileSizeBytes : Nat
  calculateIpfsHash : String → String
  /-- What `validateGatewayResponseFunc` throws. -/
  validateGatewayResponse : String → Option E
  hasAbortSignal : Bool

inductive GatewayError (E : Type)
  /-- `ERR_GATEWAY_TIMED_OUT_OR_ABORTED` -/
  | timedOutOrAborted
  /-- "Can't verify body against cid when there's no body" -/
  | noBody
  /-- `ERR_OVER_DOWNLOAD_LIMIT` -/
  | overDownloadLimit
  /-- `ERR_CALCULATED_CID_DOES_NOT_MATCH` -/
  | calculatedCidDoesNotMatch
  | other (error : E)
deriving DecidableEq, Repr

/-- The length of a string counts the characters beyond the basic plane twice. -/
def jsLength (text : String) : Nat :=
  (text.toList.map fun c => if c.val ≤ 0xFFFF then 1 else 2).sum

def verifyGatewayResponseMatchesCid (opts : LoadOpts E) (gatewayResponseBody : String) :
    Option (GatewayError E) :=
  if opts.calculateIpfsHash gatewayResponseBody = opts.root then none
  else if jsLength gatewayResponseBody = opts.maxFileSizeBytes then some .overDownloadLimit
  else some .calculatedCidDoesNotMatch

def LoadOpts.shouldVerifyBodyAgainstCid (opts : LoadOpts E) : Bool :=
  opts.recordIpfsType = .ipfs && opts.path.getD "" = ""

/-- `_fetchFromGatewayAndVerifyIfBodyCorrespondsToProvidedCid`, once there is a body. -/
def verifyBodyCorrespondsToProvidedCid (opts : LoadOpts E) (resText : String) :
    Option (GatewayError E) :=
  if opts.shouldVerifyBodyAgainstCid then
    if resText = "" then some .noBody else verifyGatewayResponseMatchesCid opts resText
  else none

/-- What `_fetchWithGateway` catches after the body has been read. -/
def checkBody (opts : LoadOpts E) (resText : String) : Option (GatewayError E) :=
  match verifyBodyCorrespondsToProvidedCid opts resText with
  | some error => some error
  | none => (opts.validateGatewayResponse resText).map .other

/-! ## The race -/

inductive Status (E : Type)
  | queued
  | requesting
  /-- The body has been read and is being checked. -/
  | checking (resText : String)
  | failed (error : GatewayError E)
  | succeeded (resText : String)
  /-- Rejected when the queue was cleared. -/
  | cleared
deriving DecidableEq

structure Gateway (E : Type) where
  url : String
  status : Status E
  /-- The abort controller has aborted. -/
  aborted : Bool
  /-- The timer is armed. -/
  timer : Bool
  /-- A request went out. -/
  requested : Bool
  /-- The timer went off before the turn of the gateway came. -/
  timedOutInQueue : Bool
deriving DecidableEq

inductive Failure (E : Type)
  /-- "No promises to find the first resolve" -/
  | noPromises
  | aborted
  /-- `FailedToFetch…FromGatewaysError` -/
  | failedToFetch (recordPKCType : RecordPkcType) (gatewayToError : List (String × GatewayError E))

structure State (E : Type) where
  gateways : List (Gateway E)
  /-- What `_firstResolve` has resolved with. -/
  firstResolve : Option String
  parentAborted : Bool
  /-- What the caller gets; `none` while the race is on. -/
  result : Option (Except (Failure E) String)

def concurrencyLimit : Nat := 3

/-- The gateways in the order of `gatewaysSorted`, each with its timer. -/
def init (gatewaysSorted : List String) (signalAborted : Bool) : State E :=
  if signalAborted then ⟨[], none, true, some (.error .aborted)⟩
  else
    let gateways := gatewaysSorted.map fun url => ⟨url, .queued, false, true, false, false⟩
    ⟨gateways, none, false, if gateways = [] then some (.error .noPromises) else none⟩

/-- The request or the checks are under way. -/
def Gateway.active (gateway : Gateway E) : Bool :=
  match gateway.status with
  | .requesting | .checking _ => true
  | _ => false

def Gateway.isQueued (gateway : Gateway E) : Bool :=
  match gateway.status with
  | .queued => true
  | _ => false

/-- The promise of the gateway is settled, and not with a response. -/
def Gateway.isLost (gateway : Gateway E) : Bool :=
  match gateway.status with
  | .failed _ | .cleared => true
  | _ => false

/-- Whose turn it is. -/
def State.next (s : State E) : Option Nat :=
  if s.gateways.countP Gateway.active < concurrencyLimit then
    s.gateways.findIdx? Gateway.isQueued
  else none

/-- A request with a signal that has aborted does not go out. -/
def Gateway.start (gateway : Gateway E) : Gateway E :=
  { gateway with status := .requesting, requested := !gateway.aborted }

def Gateway.cleanUp (gateway : Gateway E) : Gateway E :=
  { gateway with
    status := if gateway.isQueued then .cleared else gateway.status
    aborted := true
    timer := false }

def State.cleanUp (s : State E) : State E :=
  { s with gateways := s.gateways.map Gateway.cleanUp }

def State.gatewayToError (s : State E) : List (String × GatewayError E) :=
  s.gateways.filterMap fun gateway =>
    match gateway.status with
    | .failed error => some (gateway.url, error)
    | _ => none

inductive Answer (E : Type)
  /-- The request was aborted. -/
  | aborted
  /-- The request or the reading of the body fails. -/
  | failed (error : E)
  /-- `abortRequestErrorBeforeLoadingBodyFunc` gives an error.  Where the body is verified against
  the CID the code would say that there is none; no caller gives such a function there. -/
  | abortError (error : E)
  | body (resText : String)

def Gateway.answer (gateway : Gateway E) : Answer E → Option (Gateway E)
  | .aborted =>
    if gateway.aborted then some { gateway with status := .failed .timedOutOrAborted } else none
  | .failed error =>
    if gateway.aborted then none else some { gateway with status := .failed (.other error) }
  | .abortError error =>
    if gateway.aborted then none
    else some { gateway with status := .failed (.other error), aborted := true }
  | .body resText =>
    if gateway.aborted then none else some { gateway with status := .checking resText }

inductive Action (E : Type)
  | start
  | answer (i : Nat) (answer : Answer E)
  | checked (i : Nat)
  | timeout (i : Nat)
  | parentAbort
  | settle

def State.set (s : State E) (i : Nat) (gateway : Gateway E) : State E :=
  { s with gateways := s.gateways.set i gateway }

/-- The race ends with the first response, or when all promises are settled without one. -/
def settle (opts : LoadOpts E) (s : State E) : Option (State E) :=
  match s.firstResolve with
  | some resText => some { s.cleanUp with result := some (.ok resText) }
  | none =>
    if s.gateways.all Gateway.isLost then
      let failure := if s.parentAborted then .aborted
        else .failedToFetch opts.recordPKCType s.gatewayToError
      some { s.cleanUp with result := some (.error failure) }
    else none

def step (opts : LoadOpts E) (s : State E) : Action E → Option (State E)
  | .start => do
    let i ← s.next
    let gateway ← s.gateways[i]?
    some (s.set i gateway.start)
  | .answer i answer => do
    let gateway ← s.gateways[i]?
    match gateway.status with
    | .requesting => (gateway.answer answer).map (s.set i)
    | _ => none
  | .checked i => do
    let gateway ← s.gateways[i]?
    match gateway.status with
    | .checking resText =>
      match checkBody opts resText with
      | some error => some (s.set i { gateway with status := .failed error })
      | none => some { s.set i { gateway with status := .succeeded resText } with
          firstResolve := s.firstResolve.or (some resText) }
    | _ => none
  -- whose turn it is starts before any timer can go off
  | .timeout i => do
    let gateway ← s.gateways[i]?
    if gateway.timer ∧ s.next = none then
      some (s.set i { gateway with
        timer := false, aborted := true, timedOutInQueue := gateway.isQueued })
    else none
  | .parentAbort =>
    if opts.hasAbortSignal ∧ s.result.isNone ∧ s.parentAborted = false then
      some { s.cleanUp with parentAborted := true }
    else none
  | .settle => if s.result.isNone then settle opts s else none

/-! ## What the caller relies on -/

/-- No timer goes off for a gateway whose turn has not come. -/
def Ok (s : State E) : Action E → Prop
  | .timeout i => ∀ gateway, s.gateways[i]? = some gateway → gateway.isQueued = false
  | _ => True

/-- The checks that a response has to pass. -/
def Passes (opts : LoadOpts E) (resText : String) : Prop :=
  (opts.shouldVerifyBodyAgainstCid → opts.calculateIpfsHash resText = opts.root) ∧
    opts.validateGatewayResponse resText = none

/-- What goes on without the gateways and the caller. -/
def Action.Internal : Action E → Prop
  | .start | .answer _ .aborted | .checked _ | .timeout _ | .settle => True
  | .answer _ _ | .parentAbort => False

/-- The gateway was asked before it was timed out, and the failure says what its error is. -/
structure Asked (failure : Failure E) (gateway : Gateway E) : Prop where
  requested : gateway.requested
  notTimedOut : gateway.timedOutInQueue = false
  error : ∃ error recordPKCType gatewayToError, gateway.status = .failed error ∧
    failure = .failedToFetch recordPKCType gatewayToError ∧ (gateway.url, error) ∈ gatewayToError

/-- What the caller relies on. -/
structure Fair (opts : LoadOpts E) (s : State E) : Prop where
  returned : ∀ resText, s.result = some (.ok resText) → Passes opts resText
  asked : ∀ failure, s.result = some (.error failure) → s.parentAborted = false →
    ∀ gateway ∈ s.gateways, Asked failure gateway
  quiet : s.result.isSome → ∀ gateway ∈ s.gateways,
    gateway.timer = false ∧ (gateway.status = .requesting → gateway.aborted) ∧
      gateway.isQueued = false
  /-- The race goes on by itself. -/
  progress : s.result = none → ∃ a, a.Internal ∧ (step opts s a).isSome

/-! ## The parts of a step -/

section Steps

variable {opts : LoadOpts E} {s s' : State E} {i : Nat} {gateway gateway' : Gateway E}
  {resText : String} {failure : Failure E}

theorem checkBody_eq_none (h : checkBody opts resText = none) : Passes opts resText := by
  rw [checkBody] at h
  split at h
  · cases h
  rename_i hverified
  refine ⟨fun hverify => ?_, Option.map_eq_none_iff.1 h⟩
  rw [verifyBodyCorrespondsToProvidedCid, if_pos hverify] at hverified
  split at hverified
  · cases hverified
  rw [verifyGatewayResponseMatchesCid] at hverified
  split at hverified
  · assumption
  · split at hverified <;> cases hverified

theorem step_start (h : step opts s .start = some s') :
    ∃ i gateway, s.gateways[i]? = some gateway ∧ gateway.isQueued ∧ s' = s.set i gateway.start := by
  obtain ⟨i, hnext, h⟩ := Option.bind_eq_some_iff.1 h
  obtain ⟨gateway, hgateway, h⟩ := Option.bind_eq_some_iff.1 h
  cases h
  rw [State.next] at hnext
  split at hnext
  · obtain ⟨hlt, hqueued, -⟩ := List.findIdx?_eq_some_iff_getElem.1 hnext
    rw [List.getElem?_eq_getElem hlt, Option.some.injEq] at hgateway
    exact ⟨i, gateway, by rw [List.getElem?_eq_getElem hlt, hgateway], hgateway ▸ hqueued, rfl⟩
  · cases hnext

theorem step_answer {answer : Answer E} (h : step opts s (.answer i answer) = some s') :
    ∃ gateway gateway', s.gateways[i]? = some gateway ∧ gateway.status = .requesting ∧
      gateway.answer answer = some gateway' ∧ s' = s.set i gateway' := by
  obtain ⟨gateway, hgateway, h⟩ := Option.bind_eq_some_iff.1 h
  split at h
  · rename_i hstatus
    obtain ⟨gateway', hanswer, rfl⟩ := Option.map_eq_some_iff.1 h
    exact ⟨gateway, gateway', hgateway, hstatus, hanswer, rfl⟩
  · cases h

/-- An answer leaves the timer, and a gateway that was aborted is. -/
theorem answer_eq_some {answer : Answer E} (h : gateway.answer answer = some gateway') :
    ((∃ error, gateway'.status = .failed error) ∨ ∃ resText, gateway'.status = .checking resText) ∧
      gateway'.timer = gateway.timer ∧ (gateway.aborted = true → gateway'.aborted = true) ∧
      gateway'.isQueued = false ∧ gateway'.requested = gateway.requested ∧
      gateway'.timedOutInQueue = gateway.timedOutInQueue := by
  cases answer with
  | aborted =>
    obtain ⟨-, hs⟩ := Option.ite_none_right_eq_some.1 h
    cases hs
    exact ⟨.inl ⟨_, rfl⟩, rfl, id, rfl, rfl, rfl⟩
  | failed error =>
    obtain ⟨-, hs⟩ := Option.ite_none_left_eq_some.1 h
    cases hs
    exact ⟨.inl ⟨_, rfl⟩, rfl, id, rfl, rfl, rfl⟩
  | abortError error =>
    obtain ⟨-, hs⟩ := Option.ite_none_left_eq_some.1 h
    cases hs
    exact ⟨.inl ⟨_, rfl⟩, rfl, fun _ => rfl, rfl, rfl, rfl⟩
  | body resText =>
    obtain ⟨-, hs⟩ := Option.ite_none_left_eq_some.1 h
    cases hs
    exact ⟨.inr ⟨_, rfl⟩, rfl, id, rfl, rfl, rfl⟩

theorem step_checked (h : step opts s (.checked i) = some s') :
    ∃ gateway resText, s.gateways[i]? = some gateway ∧ gateway.status = .checking resText ∧
      ((∃ error, s' = s.set i { gateway with status := .failed error }) ∨
        Passes opts resText ∧ s' = { s.set i { gateway with status := .succeeded resText } with
          firstResolve := s.firstResolve.or (some resText) }) := by
  obtain ⟨gateway, hgateway, h⟩ := Option.bind_eq_some_iff.1 h
  split at h
  · rename_i resText hstatus
    refine ⟨gateway, resText, hgateway, hstatus, ?_⟩
    split at h
    · rename_i error _
      cases h
      exact .inl ⟨error, rfl⟩
    · rename_i hpasses
      cases h
      exact .inr ⟨checkBody_eq_none hpasses, rfl⟩
  · cases h

theorem step_timeout (h : step opts s (.timeout i) = some s') :
    ∃ gateway, s.gateways[i]? = some gateway ∧ gateway.timer ∧ s.next = none ∧
      s' = s.set i { gateway with
        timer := false, aborted := true, timedOutInQueue := gateway.isQueued } := by
  obtain ⟨gateway, hgateway, h⟩ := Option.bind_eq_some_iff.1 h
  obtain ⟨⟨htimer, hnext⟩, hs⟩ := Option.ite_none_right_eq_some.1 h
  cases hs
  exact ⟨gateway, hgateway, htimer, hnext, rfl⟩

theorem step_parentAbort (h : step opts s .parentAbort = some s') :
    s.result = none ∧ s.parentAborted = false ∧ s' = { s.cleanUp with parentAborted := true } := by
  obtain ⟨⟨-, hresult, haborted⟩, hs⟩ := Option.ite_none_right_eq_some.1 h
  cases hs
  exact ⟨Option.isNone_iff_eq_none.1 hresult, haborted, rfl⟩

theorem step_settle (h : step opts s .settle = some s') :
    s.result = none ∧
      ((∃ resText, s.firstResolve = some resText ∧
          s' = { s.cleanUp with result := some (.ok resText) }) ∨
        s.gateways.all Gateway.isLost ∧ ∃ failure,
          (s.parentAborted = false →
            failure = .failedToFetch opts.recordPKCType s.gatewayToError) ∧
          s' = { s.cleanUp with result := some (.error failure) }) := by
  obtain ⟨hresult, hs⟩ := Option.ite_none_right_eq_some.1 h
  refine ⟨Option.isNone_iff_eq_none.1 hresult, ?_⟩
  rw [settle] at hs
  split at hs
  · rename_i resText hfirst
    cases hs
    exact .inl ⟨resText, hfirst, rfl⟩
  · obtain ⟨hlost, hs⟩ := Option.ite_none_right_eq_some.1 hs
    cases hs
    exact .inr ⟨hlost, _, fun haborted => by rw [if_neg (by simp [haborted])], rfl⟩

theorem forall_set {P : Gateway E → Prop} (h : ∀ gateway ∈ s.gateways, P gateway)
    (hnew : P gateway') : ∀ gateway ∈ (s.set i gateway').gateways, P gateway := by
  intro gateway hgateway
  rcases List.mem_or_eq_of_mem_set hgateway with hold | rfl
  · exact h gateway hold
  · exact hnew

theorem forall_cleanUp {P : Gateway E → Prop} (h : ∀ gateway ∈ s.gateways, P gateway.cleanUp) :
    ∀ gateway ∈ s.cleanUp.gateways, P gateway := by
  intro gateway hgateway
  obtain ⟨gateway, hold, rfl⟩ := List.mem_map.1 hgateway
  exact h gateway hold

@[simp] theorem isQueued_cleanUp (gateway : Gateway E) : gateway.cleanUp.isQueued = false := by
  obtain ⟨url, status, aborted, timer, requested, timedOutInQueue⟩ := gateway
  cases status <;> rfl

theorem status_cleanUp (h : gateway.isQueued = false) :
    gateway.cleanUp.status = gateway.status := by
  rw [Gateway.cleanUp, h]
  rfl

theorem isQueued_iff : gateway.isQueued ↔ gateway.status = .queued := by
  rw [Gateway.isQueued]
  split <;> simp_all

/-- Of a gateway that has left the queue only what it says of itself is kept. -/
theorem status_of_cleanUp {status : Status E} (h : gateway.cleanUp.status = status)
    (hcleared : status ≠ .cleared) : gateway.status = status := by
  rw [Gateway.cleanUp] at h
  dsimp only at h
  split at h
  · exact absurd h.symm hcleared
  · exact h

/-! ## Every state -/

/-- Neither has the race ended nor the caller aborted it. -/
def State.Live (s : State E) : Prop := s.result = none ∧ s.parentAborted = false

structure Gateway.Inv (live : Prop) (gateway : Gateway E) : Prop where
  armed : live → gateway.status = .queued ∨ gateway.status = .requesting →
    gateway.aborted = false → gateway.timer = true
  cleaned : ¬ live → gateway.timer = false ∧ gateway.aborted = true ∧ gateway.isQueued = false
  cleared : gateway.status = .cleared → ¬ live

structure Inv (opts : LoadOpts E) (s : State E) : Prop where
  gateways : ∀ gateway ∈ s.gateways, gateway.Inv s.Live
  resolved : ∀ resText, s.firstResolve = some resText → Passes opts resText
  returned : ∀ resText, s.result = some (.ok resText) → Passes opts resText
  succeeded : ∀ gateway ∈ s.gateways, ∀ resText, gateway.status = .succeeded resText →
    s.firstResolve.isSome
  failures : ∀ failure, s.result = some (.error failure) → s.parentAborted = false →
    ∀ gateway ∈ s.gateways, ∃ error recordPKCType gatewayToError,
      gateway.status = .failed error ∧ failure = .failedToFetch recordPKCType gatewayToError ∧
        (gateway.url, error) ∈ gatewayToError

namespace Inv

theorem init (gatewaysSorted : List String) (signalAborted : Bool) :
    Inv opts (init gatewaysSorted signalAborted) := by
  have hfresh : ∀ gateway ∈ (gatewaysSorted.map fun url =>
      (⟨url, .queued, false, true, false, false⟩ : Gateway E)),
      gateway.status = .queued ∧ gateway.timer = true := by
    intro gateway hgateway
    obtain ⟨url, -, rfl⟩ := List.mem_map.1 hgateway
    exact ⟨rfl, rfl⟩
  rw [GatewayRace.init]
  split
  · constructor <;> simp
  dsimp only
  constructor
  case gateways =>
    intro gateway hgateway
    obtain ⟨hstatus, htimer⟩ := hfresh gateway hgateway
    refine ⟨fun _ _ _ => htimer, fun hnot => absurd ?_ hnot, fun hcleared => ?_⟩
    · exact ⟨if_neg (List.ne_nil_of_mem hgateway), rfl⟩
    · rw [hstatus] at hcleared
      cases hcleared
  case resolved => simp
  case returned =>
    intro resText hresult
    dsimp only at hresult
    split at hresult <;> simp at hresult
  case succeeded =>
    intro gateway hgateway resText hstatus
    rw [(hfresh gateway hgateway).1] at hstatus
    cases hstatus
  case failures =>
    intro failure hresult _ gateway hgateway
    dsimp only at hresult
    rw [if_neg (List.ne_nil_of_mem hgateway)] at hresult
    cases hresult

/-- A gateway that has not failed is in the race. -/
theorem not_error (h : Inv opts s) (hmem : gateway ∈ s.gateways)
    (hstatus : ∀ error, gateway.status ≠ .failed error)
    (hresult : s.result = some (.error failure)) : s.parentAborted = true := by
  by_contra hnot
  obtain ⟨error, -, -, hfailed, -⟩ := h.failures failure hresult (by simpa using hnot) gateway hmem
  exact hstatus error hfailed

/-- One gateway goes on. -/
theorem set (h : Inv opts s)
    (herror : ∀ failure, s.result = some (.error failure) → s.parentAborted = true)
    (hnew : gateway'.Inv s.Live)
    (hsucceeded : ∀ resText, gateway'.status = .succeeded resText → s.firstResolve.isSome) :
    Inv opts (s.set i gateway') where
  __ := h
  gateways := forall_set h.gateways hnew
  succeeded := forall_set h.succeeded hsucceeded
  failures failure hresult haborted := by
    exact absurd ((herror failure hresult).symm.trans haborted) (by simp)

/-- All gateways are cleaned up, as the race ends or the caller aborts it. -/
theorem cleanUp (h : Inv opts s) (hdead : ¬ s'.Live)
    (hgateways : s'.gateways = s.cleanUp.gateways) (hfirst : s'.firstResolve = s.firstResolve)
    (hreturned : ∀ resText, s'.result = some (.ok resText) → Passes opts resText)
    (hfailures : ∀ failure, s'.result = some (.error failure) → s'.parentAborted = false →
      ∀ gateway ∈ s.gateways, ∃ error recordPKCType gatewayToError,
        gateway.status = .failed error ∧ failure = .failedToFetch recordPKCType gatewayToError ∧
          (gateway.url, error) ∈ gatewayToError) : Inv opts s' where
  gateways := by
    rw [hgateways]
    exact forall_cleanUp fun gateway _ => ⟨fun hlive => absurd hlive hdead,
      fun _ => ⟨rfl, rfl, isQueued_cleanUp gateway⟩, fun _ => hdead⟩
  resolved := by
    rw [hfirst]
    exact h.resolved
  returned := hreturned
  succeeded := by
    rw [hgateways, hfirst]
    exact forall_cleanUp fun gateway hgateway resText hstatus =>
      h.succeeded gateway hgateway resText (status_of_cleanUp hstatus (by simp))
  failures failure hresult haborted := by
    rw [hgateways]
    refine forall_cleanUp fun gateway hgateway => ?_
    obtain ⟨error, recordPKCType, gatewayToError, hstatus, hrest⟩ :=
      hfailures failure hresult haborted gateway hgateway
    refine ⟨error, recordPKCType, gatewayToError, ?_, hrest⟩
    rw [status_cleanUp (by rw [Gateway.isQueued, hstatus]), hstatus]

theorem resolve (h : Inv opts s) (hpasses : Passes opts resText) :
    Inv opts { s with firstResolve := s.firstResolve.or (some resText) } where
  __ := h
  resolved text hresolved := by
    cases hfirst : s.firstResolve with
    | none =>
      simp only [hfirst, Option.none_or, Option.some.injEq] at hresolved
      exact hresolved ▸ hpasses
    | some text' =>
      simp only [hfirst, Option.some_or] at hresolved
      exact h.resolved text (hfirst.trans hresolved)
  succeeded _ _ _ _ := by simp

theorem start (h : Inv opts s) (hstep : step opts s .start = some s') : Inv opts s' := by
  obtain ⟨i, gateway, hgateway, hqueued, rfl⟩ := step_start hstep
  have hmem := List.mem_of_getElem? hgateway
  have hinv := h.gateways gateway hmem
  have hstatus := isQueued_iff.1 hqueued
  refine h.set (fun failure => h.not_error hmem (by simp [hstatus])) ⟨?_, ?_, ?_⟩ ?_
  · exact fun hlive _ haborted => hinv.armed hlive (.inl hstatus) haborted
  · intro hdead
    rw [(hinv.cleaned hdead).2.2] at hqueued
    cases hqueued
  · rintro ⟨⟩
  · rintro resText ⟨⟩

theorem answer (h : Inv opts s) {answer : Answer E}
    (hstep : step opts s (.answer i answer) = some s') : Inv opts s' := by
  obtain ⟨gateway, gateway', hgateway, hstatus, hanswer, rfl⟩ := step_answer hstep
  have hmem := List.mem_of_getElem? hgateway
  have hinv := h.gateways gateway hmem
  have hanswered := answer_eq_some hanswer
  refine h.set (fun failure => h.not_error hmem (by simp [hstatus])) ⟨?_, ?_, ?_⟩ ?_
  · rintro - (hqueued | hrequesting)
    · simp [hqueued] at hanswered
    · simp [hrequesting] at hanswered
  · intro hdead
    obtain ⟨htimer, haborted, -⟩ := hinv.cleaned hdead
    exact ⟨hanswered.2.1.trans htimer, hanswered.2.2.1 haborted, hanswered.2.2.2.1⟩
  · intro hcleared
    simp [hcleared] at hanswered
  · intro resText hsucceeded
    simp [hsucceeded] at hanswered

theorem checked (h : Inv opts s) (hstep : step opts s (.checked i) = some s') : Inv opts s' := by
  obtain ⟨gateway, resText, hgateway, hstatus, hs⟩ := step_checked hstep
  have hmem := List.mem_of_getElem? hgateway
  have hinv := h.gateways gateway hmem
  have herror : ∀ failure, s.result = some (.error failure) → s.parentAborted = true :=
    fun failure => h.not_error hmem (by simp [hstatus])
  rcases hs with ⟨error, rfl⟩ | ⟨hpasses, rfl⟩
  · refine h.set herror ⟨?_, ?_, by rintro ⟨⟩⟩ (by rintro resText ⟨⟩)
    · rintro - (⟨⟨⟩⟩ | ⟨⟨⟩⟩)
    · intro hdead
      obtain ⟨htimer, haborted, -⟩ := hinv.cleaned hdead
      exact ⟨htimer, haborted, rfl⟩
  · refine (h.resolve hpasses).set herror ⟨?_, ?_, by rintro ⟨⟩⟩ (fun _ _ => by simp)
    · rintro - (⟨⟨⟩⟩ | ⟨⟨⟩⟩)
    · intro hdead
      obtain ⟨htimer, haborted, -⟩ := hinv.cleaned hdead
      exact ⟨htimer, haborted, rfl⟩

theorem timeout (h : Inv opts s) (hstep : step opts s (.timeout i) = some s') : Inv opts s' := by
  obtain ⟨gateway, hgateway, htimer, -, rfl⟩ := step_timeout hstep
  have hmem := List.mem_of_getElem? hgateway
  have hinv := h.gateways gateway hmem
  -- a timer that is armed is one of a race that is on
  have hlive : s.Live := by
    by_contra hdead
    rw [(hinv.cleaned hdead).1] at htimer
    cases htimer
  refine h.set (fun failure hresult => ?_) ⟨?_, ?_, hinv.cleared⟩ (h.succeeded gateway hmem)
  · rw [hlive.1] at hresult
    cases hresult
  · rintro - - ⟨⟩
  · exact fun hdead => absurd hlive hdead

theorem parentAbort (h : Inv opts s) (hstep : step opts s .parentAbort = some s') :
    Inv opts s' := by
  obtain ⟨hresult, -, rfl⟩ := step_parentAbort hstep
  refine h.cleanUp (fun hlive => by cases hlive.2) rfl rfl ?_ ?_
  · intro resText hok
    exact absurd (hok.symm.trans hresult) (by simp)
  · intro failure herror
    exact absurd (herror.symm.trans hresult) (by simp)

theorem settle (h : Inv opts s) (hstep : step opts s .settle = some s') : Inv opts s' := by
  obtain ⟨hresult, ⟨resText, hfirst, rfl⟩ | ⟨hlost, failure, hfailure, rfl⟩⟩ := step_settle hstep
  · refine h.cleanUp (fun hlive => by cases hlive.1) rfl rfl ?_ (by rintro failure ⟨⟩)
    rintro text ⟨⟩
    exact h.resolved resText hfirst
  · refine h.cleanUp (fun hlive => by cases hlive.1) rfl rfl (by rintro text ⟨⟩) ?_
    rintro _ ⟨⟩ haborted gateway hgateway
    have hlive : s.Live := ⟨hresult, haborted⟩
    have hsettled := List.all_eq_true.1 hlost gateway hgateway
    rw [Gateway.isLost] at hsettled
    split at hsettled
    · rename_i error hstatus
      refine ⟨error, _, _, hstatus, hfailure haborted, ?_⟩
      exact List.mem_filterMap.2 ⟨gateway, hgateway, by rw [hstatus]⟩
    · rename_i hstatus
      exact absurd hlive ((h.gateways gateway hgateway).cleared hstatus)
    · cases hsettled

theorem step (h : Inv opts s) {a : Action E} (hstep : step opts s a = some s') : Inv opts s' := by
  cases a with
  | start => exact h.start hstep
  | answer i answer => exact h.answer hstep
  | checked i => exact h.checked hstep
  | timeout i => exact h.timeout hstep
  | parentAbort => exact h.parentAbort hstep
  | settle => exact h.settle hstep

end Inv

/-! ## The race ends -/

theorem exists_of_active (h : concurrencyLimit ≤ s.gateways.countP Gateway.active) :
    ∃ gateway ∈ s.gateways, gateway.active := by
  have hpos : 0 < s.gateways.countP Gateway.active := Nat.lt_of_lt_of_le (by decide) h
  exact List.countP_pos_iff.1 hpos

theorem next_eq_none (h : s.next = none) :
    concurrencyLimit ≤ s.gateways.countP Gateway.active ∨
      ∀ gateway ∈ s.gateways, gateway.isQueued = false := by
  rw [State.next] at h
  split at h
  · right
    intro gateway hgateway
    simpa using List.findIdx?_eq_none_iff.1 h gateway hgateway
  · left
    omega

theorem start_isSome (h : s.next = some i) : (step opts s .start).isSome := by
  have hlt : i < s.gateways.length := by
    rw [State.next] at h
    split at h
    · exact (List.findIdx?_eq_some_iff_getElem.1 h).1
    · cases h
  simp [step, h, List.getElem?_eq_getElem hlt]

theorem checked_isSome (hgateway : s.gateways[i]? = some gateway)
    (hstatus : gateway.status = .checking resText) : (step opts s (.checked i)).isSome := by
  simp only [step, hgateway, hstatus, Option.bind_eq_bind, Option.bind_some]
  split <;> rfl

/-- A request that is under way is aborted or has its timer. -/
theorem Inv.active_goes_on (h : Inv opts s) (hnext : s.next = none)
    (hmem : gateway ∈ s.gateways) (hactive : gateway.active) :
    ∃ a, Action.Internal a ∧ (GatewayRace.step opts s a).isSome := by
  obtain ⟨i, hgateway⟩ := List.mem_iff_getElem?.1 hmem
  rw [Gateway.active] at hactive
  split at hactive
  · rename_i hstatus
    by_cases haborted : gateway.aborted = true
    · refine ⟨.answer i .aborted, trivial, ?_⟩
      simp [GatewayRace.step, hgateway, hstatus, Gateway.answer, haborted]
    · have hlive : s.Live := by
        by_contra hdead
        exact haborted ((h.gateways gateway hmem).cleaned hdead).2.1
      have htimer := (h.gateways gateway hmem).armed hlive (.inr hstatus) (by simpa using haborted)
      refine ⟨.timeout i, trivial, ?_⟩
      simp [GatewayRace.step, hgateway, htimer, hnext]
  · rename_i hstatus
    exact ⟨.checked i, trivial, checked_isSome hgateway hstatus⟩
  · cases hactive

/-- **The race cannot get stuck.** -/
theorem Inv.progress (h : Inv opts s) (hresult : s.result = none) :
    ∃ a, Action.Internal a ∧ (GatewayRace.step opts s a).isSome := by
  cases hfirst : s.firstResolve with
  | some resText =>
    exact ⟨.settle, trivial, by simp [GatewayRace.step, hresult, GatewayRace.settle, hfirst]⟩
  | none =>
  cases hnext : s.next with
  | some i => exact ⟨.start, trivial, start_isSome hnext⟩
  | none =>
  by_cases hactive : ∃ gateway ∈ s.gateways, gateway.active
  · obtain ⟨gateway, hmem, hactive⟩ := hactive
    exact h.active_goes_on hnext hmem hactive
  -- nobody is asked or waits to be asked any more
  have hnone := (next_eq_none hnext).resolve_left fun hle => hactive (exists_of_active hle)
  refine ⟨.settle, trivial, ?_⟩
  have hlost : s.gateways.all Gateway.isLost := by
    refine List.all_eq_true.2 fun gateway hmem => ?_
    have hidle : ¬ gateway.active := fun hgoes => hactive ⟨gateway, hmem, hgoes⟩
    have hqueued := hnone gateway hmem
    have hsucceeded := h.succeeded gateway hmem
    rw [hfirst] at hsucceeded
    obtain ⟨url, status, aborted, timer, requested, timedOutInQueue⟩ := gateway
    cases status with
    | queued => cases hqueued
    | requesting => exact absurd rfl hidle
    | checking resText => exact absurd rfl hidle
    | failed error => rfl
    | succeeded resText => exact absurd (hsucceeded resText rfl) (by simp)
    | cleared => rfl
  simp [GatewayRace.step, hresult, GatewayRace.settle, hfirst, hlost]

/-- How often a gateway can go on. -/
def Status.remaining : Status E → Nat
  | .queued => 3
  | .requesting => 2
  | .checking _ => 1
  | _ => 0

def Gateway.remaining (gateway : Gateway E) : Nat :=
  gateway.status.remaining + if gateway.timer then 1 else 0

def State.remaining (s : State E) : Nat :=
  (s.gateways.map Gateway.remaining).sum + (if s.result.isNone then 1 else 0) +
    if s.parentAborted then 0 else 1

theorem sum_map_set {α : Type} (f : α → Nat) {xs : List α} {i : Nat} {x : α} (x' : α)
    (h : xs[i]? = some x) : ((xs.set i x').map f).sum + f x = (xs.map f).sum + f x' := by
  induction xs generalizing i with
  | nil => simp at h
  | cons y xs ih =>
    cases i with
    | zero =>
      simp only [List.getElem?_cons_zero, Option.some.injEq] at h
      subst h
      simp only [List.set_cons_zero, List.map_cons, List.sum_cons]
      omega
    | succ i =>
      have hrest := ih (by simpa using h)
      simp only [List.set_cons_succ, List.map_cons, List.sum_cons]
      omega

theorem remaining_set (hgateway : s.gateways[i]? = some gateway)
    (hlt : gateway'.remaining < gateway.remaining) :
    (s.set i gateway').remaining < s.remaining := by
  have hsum := sum_map_set Gateway.remaining gateway' hgateway
  refine Nat.add_lt_add_right (Nat.add_lt_add_right ?_ _) _
  exact Nat.lt_of_add_lt_add_right (hsum.trans_lt (Nat.add_lt_add_left hlt _))

theorem remaining_lt (hstatus : gateway'.status.remaining < gateway.status.remaining)
    (htimer : gateway'.timer = gateway.timer) : gateway'.remaining < gateway.remaining := by
  rw [Gateway.remaining, Gateway.remaining, htimer]
  exact Nat.add_lt_add_right hstatus _

theorem remaining_cleanUp (gateway : Gateway E) :
    gateway.cleanUp.remaining ≤ gateway.remaining := by
  obtain ⟨url, status, aborted, timer, requested, timedOutInQueue⟩ := gateway
  cases status <;> simp [Gateway.remaining, Status.remaining, Gateway.cleanUp, Gateway.isQueued]

theorem sum_remaining_cleanUp (s : State E) :
    (s.cleanUp.gateways.map Gateway.remaining).sum ≤ (s.gateways.map Gateway.remaining).sum := by
  rw [State.cleanUp, List.map_map]
  exact List.sum_le_sum fun gateway _ => remaining_cleanUp gateway

/-- **Every step uses something up.** -/
theorem remaining_step {a : Action E} (hstep : step opts s a = some s') :
    s'.remaining < s.remaining := by
  cases a with
  | start =>
    obtain ⟨i, gateway, hgateway, hqueued, rfl⟩ := step_start hstep
    refine remaining_set hgateway (remaining_lt ?_ rfl)
    rw [isQueued_iff.1 hqueued]
    exact Nat.lt_succ_self 2
  | answer i answer =>
    obtain ⟨gateway, gateway', hgateway, hstatus, hanswer, rfl⟩ := step_answer hstep
    obtain ⟨hanswered, htimer, -⟩ := answer_eq_some hanswer
    refine remaining_set hgateway (remaining_lt ?_ htimer)
    rcases hanswered with ⟨error, hfailed⟩ | ⟨resText, hchecking⟩
    · rw [hstatus, hfailed]
      exact Nat.two_pos
    · rw [hstatus, hchecking]
      exact Nat.one_lt_two
  | checked i =>
    obtain ⟨gateway, resText, hgateway, hstatus, ⟨error, rfl⟩ | ⟨-, rfl⟩⟩ := step_checked hstep
    · refine remaining_set hgateway (remaining_lt ?_ rfl)
      rw [hstatus]
      exact Nat.one_pos
    · refine remaining_set (s := { s with firstResolve := _ }) hgateway (remaining_lt ?_ rfl)
      rw [hstatus]
      exact Nat.one_pos
  | timeout i =>
    obtain ⟨gateway, hgateway, htimer, -, rfl⟩ := step_timeout hstep
    refine remaining_set hgateway ?_
    simp only [Gateway.remaining, htimer, if_true]
    exact Nat.lt_succ_self _
  | parentAbort =>
    obtain ⟨hresult, haborted, rfl⟩ := step_parentAbort hstep
    have hsum := sum_remaining_cleanUp s
    simp only [State.remaining, haborted, Bool.false_eq_true, if_true, if_false]
    have hsame : s.cleanUp.result = s.result := rfl
    rw [hsame]
    omega
  | settle =>
    obtain ⟨hresult, hs⟩ := step_settle hstep
    have hsum := sum_remaining_cleanUp s
    have hsame : s.cleanUp.parentAborted = s.parentAborted := rfl
    rcases hs with ⟨resText, -, rfl⟩ | ⟨-, failure, -, rfl⟩
    · simp only [State.remaining, hresult, hsame, Option.isNone_none, Option.isNone_some, if_true,
        Bool.false_eq_true, if_false]
      omega
    · simp only [State.remaining, hresult, hsame, Option.isNone_none, Option.isNone_some, if_true,
        Bool.false_eq_true, if_false]
      omega

/-- **The race cannot go on forever.** -/
theorem length_le_remaining {ok : State E → Action E → Prop} {as : List (Action E)}
    (hrun : Run (step opts) ok s as s') : as.length + s'.remaining ≤ s.remaining := by
  induction hrun with
  | nil s => simp
  | cons hok hstep hrun ih =>
    have hlt := remaining_step hstep
    rw [List.length_cons]
    omega

theorem remaining_init (gatewaysSorted : List String) (signalAborted : Bool) :
    (init gatewaysSorted signalAborted : State E).remaining ≤ 4 * gatewaysSorted.length + 2 := by
  rw [init]
  split
  · simp [State.remaining]
  · have hsum : ((gatewaysSorted.map fun url =>
        (⟨url, .queued, false, true, false, false⟩ : Gateway E)).map Gateway.remaining).sum =
          4 * gatewaysSorted.length := by
      induction gatewaysSorted with
      | nil => rfl
      | cons url urls ih =>
        rw [List.map_cons, List.map_cons, List.sum_cons, ih, List.length_cons]
        simp only [Gateway.remaining, Status.remaining, if_true]
        omega
    simp only [State.remaining, hsum]
    split <;> simp

/-! ## Everybody is asked -/

/-- Nobody is timed out before being asked. -/
structure Gateway.InTime (gateway : Gateway E) : Prop where
  queued : gateway.isQueued → gateway.aborted = false
  timedOutInQueue : gateway.timedOutInQueue = false
  requested : gateway.isQueued ∨ gateway.status = .cleared ∨ gateway.requested = true

theorem inTime_init (gatewaysSorted : List String) (signalAborted : Bool) :
    ∀ gateway ∈ (init gatewaysSorted signalAborted : State E).gateways, gateway.InTime := by
  intro gateway hgateway
  rw [init] at hgateway
  split at hgateway
  · cases hgateway
  · obtain ⟨url, -, rfl⟩ := List.mem_map.1 hgateway
    exact ⟨fun _ => rfl, rfl, .inl rfl⟩

theorem inTime_cleanUp (h : gateway.InTime) : gateway.cleanUp.InTime := by
  refine ⟨fun hqueued => ?_, h.timedOutInQueue, ?_⟩
  · rw [isQueued_cleanUp] at hqueued
    cases hqueued
  · rcases h.requested with hqueued | hcleared | hrequested
    · exact .inr (.inl (if_pos hqueued))
    · refine .inr (.inl ?_)
      rw [status_cleanUp (by rw [Gateway.isQueued, hcleared]), hcleared]
    · exact .inr (.inr hrequested)

theorem inTime_step (h : ∀ gateway ∈ s.gateways, gateway.InTime) {a : Action E} (hok : Ok s a)
    (hstep : step opts s a = some s') : ∀ gateway ∈ s'.gateways, gateway.InTime := by
  cases a with
  | start =>
    obtain ⟨i, gateway, hgateway, hqueued, rfl⟩ := step_start hstep
    have hinTime := h gateway (List.mem_of_getElem? hgateway)
    refine forall_set h ⟨by rintro ⟨⟩, hinTime.timedOutInQueue, .inr (.inr ?_)⟩
    simp [Gateway.start, hinTime.queued hqueued]
  | answer i answer =>
    obtain ⟨gateway, gateway', hgateway, hstatus, hanswer, rfl⟩ := step_answer hstep
    have hinTime := h gateway (List.mem_of_getElem? hgateway)
    obtain ⟨-, -, -, hqueued, hrequested, htimedOut⟩ := answer_eq_some hanswer
    refine forall_set h ⟨fun hq => ?_, htimedOut.trans hinTime.timedOutInQueue, .inr (.inr ?_)⟩
    · rw [hqueued] at hq
      cases hq
    · have hwas := hinTime.requested
      rw [Gateway.isQueued, hstatus] at hwas
      simpa [hrequested] using hwas
  | checked i =>
    obtain ⟨gateway, resText, hgateway, hstatus, hs⟩ := step_checked hstep
    have hinTime := h gateway (List.mem_of_getElem? hgateway)
    have hwas := hinTime.requested
    rw [Gateway.isQueued, hstatus] at hwas
    have hrequested : gateway.requested = true := by simpa using hwas
    rcases hs with ⟨error, rfl⟩ | ⟨-, rfl⟩
    · exact forall_set h ⟨by rintro ⟨⟩, hinTime.timedOutInQueue, .inr (.inr hrequested)⟩
    · exact forall_set h ⟨by rintro ⟨⟩, hinTime.timedOutInQueue, .inr (.inr hrequested)⟩
  | timeout i =>
    obtain ⟨gateway, hgateway, -, -, rfl⟩ := step_timeout hstep
    have hinTime := h gateway (List.mem_of_getElem? hgateway)
    have hnot := hok gateway hgateway
    refine forall_set h ⟨fun hq => absurd (hq.symm.trans hnot) (by simp), hnot, ?_⟩
    exact hinTime.requested
  | parentAbort =>
    obtain ⟨-, -, rfl⟩ := step_parentAbort hstep
    exact forall_cleanUp fun gateway hgateway => inTime_cleanUp (h gateway hgateway)
  | settle =>
    obtain ⟨-, ⟨resText, -, rfl⟩ | ⟨-, failure, -, rfl⟩⟩ := step_settle hstep
    · exact forall_cleanUp fun gateway hgateway => inTime_cleanUp (h gateway hgateway)
    · exact forall_cleanUp fun gateway hgateway => inTime_cleanUp (h gateway hgateway)

theorem length_gateways_step {a : Action E} (hstep : step opts s a = some s') :
    s'.gateways.length = s.gateways.length := by
  cases a with
  | start =>
    obtain ⟨i, gateway, -, -, rfl⟩ := step_start hstep
    exact List.length_set
  | answer i answer =>
    obtain ⟨gateway, gateway', -, -, -, rfl⟩ := step_answer hstep
    exact List.length_set
  | checked i =>
    obtain ⟨gateway, resText, -, -, ⟨error, rfl⟩ | ⟨-, rfl⟩⟩ := step_checked hstep
    · exact List.length_set
    · exact List.length_set
  | timeout i =>
    obtain ⟨gateway, -, -, -, rfl⟩ := step_timeout hstep
    exact List.length_set
  | parentAbort =>
    obtain ⟨-, -, rfl⟩ := step_parentAbort hstep
    exact List.length_map _
  | settle =>
    obtain ⟨-, ⟨resText, -, rfl⟩ | ⟨-, failure, -, rfl⟩⟩ := step_settle hstep
    · exact List.length_map _
    · exact List.length_map _

/-- **Up to three gateways are asked before any timer goes off.** -/
theorem ok_of_length_le {a : Action E} (hlength : s.gateways.length ≤ concurrencyLimit)
    (hstep : step opts s a = some s') : Ok s a := by
  cases a with
  | timeout i =>
    intro gateway hgateway
    obtain ⟨gateway', hgateway', -, hnext, -⟩ := step_timeout hstep
    have hmem := List.mem_of_getElem? hgateway
    refine (next_eq_none hnext).elim (fun hle => ?_) fun hnone => hnone gateway hmem
    have hall := List.countP_eq_length.1 (Nat.le_antisymm List.countP_le_length (hlength.trans hle))
    have hactive := hall gateway hmem
    rw [Gateway.active] at hactive
    rw [Gateway.isQueued]
    split at hactive <;> simp_all
  | _ => trivial

theorem Run.ok_of_length_le {as : List (Action E)}
    (hlength : s.gateways.length ≤ concurrencyLimit)
    (hrun : Run (step opts) anyStep s as s') : Run (step opts) Ok s as s' := by
  induction hrun with
  | nil s => exact .nil s
  | cons hok hstep hrun ih =>
    exact .cons (GatewayRace.ok_of_length_le hlength hstep) hstep
      (ih ((length_gateways_step hstep).trans_le hlength))

end Steps

/-- **The race is fair as long as no timer goes off for a gateway that waits for its turn.**  What
is returned has passed the checks; a failure that is not the caller's is one of all gateways, each
of which was asked before it was timed out and has its own error in it; nothing is left active; and
the race goes on by itself until it ends, which it does after so many steps. -/
theorem asks_everyone {opts : LoadOpts E} {gatewaysSorted : List String} {signalAborted : Bool}
    {as : List (Action E)} {s : State E}
    (hrun : Run (step opts) Ok (init gatewaysSorted signalAborted) as s) :
    Fair opts s ∧ as.length ≤ 4 * gatewaysSorted.length + 2 := by
  have hinv : Inv opts s := hrun.invariant (fun _ _ _ hinv _ hstep => hinv.step hstep)
    (Inv.init gatewaysSorted signalAborted)
  have hinTime : ∀ gateway ∈ s.gateways, gateway.InTime :=
    hrun.invariant (I := fun s => ∀ gateway ∈ s.gateways, gateway.InTime)
      (fun _ _ _ hinTime hok hstep => inTime_step hinTime hok hstep)
      (inTime_init gatewaysSorted signalAborted)
  refine ⟨⟨hinv.returned, fun failure hresult haborted gateway hmem => ?_, fun hresult => ?_,
    hinv.progress⟩, ?_⟩
  · obtain ⟨error, recordPKCType, gatewayToError, hstatus, hrest⟩ :=
      hinv.failures failure hresult haborted gateway hmem
    have hasked := (hinTime gateway hmem).requested
    rw [Gateway.isQueued, hstatus] at hasked
    exact ⟨by simpa using hasked, (hinTime gateway hmem).timedOutInQueue,
      error, recordPKCType, gatewayToError, hstatus, hrest⟩
  · intro gateway hmem
    have hdead : ¬ s.Live := fun hlive => by
      rw [hlive.1] at hresult
      cases hresult
    obtain ⟨htimer, haborted, hqueued⟩ := (hinv.gateways gateway hmem).cleaned hdead
    exact ⟨htimer, fun _ => haborted, hqueued⟩
  · have hlength := length_le_remaining hrun
    have hinit := remaining_init (E := E) gatewaysSorted signalAborted
    omega

/-! ### Two races -/

/-- A file by its CID; every body but `"post"` has another one. -/
def fetchPost : LoadOpts String where
  recordIpfsType := .ipfs
  recordPKCType := .comment
  root := "Qm"
  path := none
  maxFileSizeBytes := 1024
  calculateIpfsHash := fun body => if body = "post" then "Qm" else "Qn"
  validateGatewayResponse := fun _ => none
  hasAbortSignal := false

def fourGateways : State String :=
  init ["https://a.example", "https://b.example", "https://c.example", "https://d.example"] false

/-- The first gateway does not answer in time, and the fourth takes its place; the others fail, each
in its way. -/
def allFail : List (Action String) :=
  [.start, .start, .start, .timeout 0, .answer 0 .aborted, .start, .answer 1 (.body "spam"),
    .checked 1, .answer 2 (.abortError "too old"), .answer 3 (.failed "refused"), .settle]

theorem asks_everyone_of_four_gateways :
    ∃ s, Run (step fetchPost) Ok fourGateways allFail s ∧
      s.result = some (.error (.failedToFetch .comment
        [("https://a.example", .timedOutOrAborted), ("https://b.example", .calculatedCidDoesNotMatch),
          ("https://c.example", .other "too old"), ("https://d.example", .other "refused")])) ∧
      Fair fetchPost s ∧ 11 ≤ 4 * 4 + 2 := by
  have hrun : ∃ s, Run (step fetchPost) Ok fourGateways allFail s ∧
      s.result = some (.error (.failedToFetch .comment
        [("https://a.example", .timedOutOrAborted), ("https://b.example", .calculatedCidDoesNotMatch),
          ("https://c.example", .other "too old"), ("https://d.example", .other "refused")])) := by
    refine ⟨_, .cons trivial rfl <| .cons trivial rfl <| .cons trivial rfl <| .cons ?_ rfl <|
      .cons trivial rfl <| .cons trivial rfl <| .cons trivial rfl <| .cons trivial rfl <|
      .cons trivial rfl <| .cons trivial rfl <| .cons trivial rfl <| .nil _, rfl⟩
    intro gateway hgateway
    cases hgateway
    rfl
  obtain ⟨s, hrun, hresult⟩ := hrun
  exact ⟨s, hrun, hresult, asks_everyone hrun⟩

/-- Three gateways do not answer, and the timer of the fourth goes off before it is asked. -/
theorem not_asked_of_timeout_in_queue :
    ∃ s, Run (step fetchPost) anyStep (init ["https://a.example", "https://b.example",
        "https://c.example", "https://d.example"] false)
        [.start, .start, .start, .timeout 0, .timeout 1, .timeout 2, .timeout 3,
          .answer 0 .aborted, .start, .answer 1 .aborted, .answer 2 .aborted,
          .answer 3 .aborted, .settle] s ∧
      s.result.isSome ∧ s.parentAborted = false ∧
      s.gateways[3]? = some ⟨"https://d.example", .failed .timedOutOrAborted, true, false, false,
        true⟩ ∧ ¬ Fair fetchPost s := by
  refine ⟨_, Run.of_exec rfl, rfl, rfl, rfl, fun hfair => ?_⟩
  have hasked := hfair.asked _ rfl rfl _ (List.mem_of_getElem? (i := 3) rfl)
  exact absurd hasked.requested (by decide)

end GatewayRace
end Pkc

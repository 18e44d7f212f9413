import Pkc.Library.Runs
import Mathlib.Logic.Function.Basic

/-!
# The challenge exchanges of a publication

`publish()` sends the signed publication as a CHALLENGEREQUEST through one pubsub provider and,
while no answer comes, through the next ones; each request opens an exchange under an id of its own.
The handlers of the CHALLENGE and CHALLENGEVERIFICATION messages, the calls of
`publishChallengeAnswers` and the publish loop run side by side.  Each stands at one of its awaits,
and what ends the await is the action that resumes it.

* `handleChallenge` and `handleChallengeVerification` are the handlers of the messages;
  `recordChallenge` and `recordVerification` are what they do after their last await, having looked
  at the exchanges again.
* `publishChallengeAnswers` claims the exchange with the challenge before its first await.
* `Loop` is where the publish loop stands: `publishLoop` is the `while` of `publish` and
  `retryLoop` that of `_handleNotReceivingResponseToChallengeRequest`.

A message may be delivered at any time to a publication that has opened its exchange.  The keys the
ids are derived from are fresh, so no two exchanges have one id.
-/

set_option autoImplicit false

namespace Pkc
namespace Publisher

/-- `PublicationPublishingState`. -/
inductive PublishingState
  | stopped
  | resolvingCommunityName
  | fetchingCommunityIpns
  | fetchingCommunityIpfs
  | publishingChallengeRequest
  | waitingChallenge
  | waitingChallengeAnswers
  | publishingChallengeAnswer
  | waitingChallengeVerification
  | failed
  | succeeded
deriving DecidableEq, Repr

/-- One of `_challengeExchanges`.  Of a verification only `challengeSuccess` is kept. -/
structure Exchange where
  challengeRequestId : String
  providerUrl : String
  challenge : Bool := false
  challengeVerification : Option Bool := none
  challengeAnswer : Bool := false
  challengeAnswerPublishInFlight : Bool := false
  challengeAnswerPublishError : Bool := false
  challengeRequestPublishError : Bool := false
  challengeRequestPublishTimestamp : Option Nat := none
deriving DecidableEq, Repr

namespace Exchange

def withChallenge (e : Exchange) : Exchange := { e with challenge := true }

def withVerification (challengeSuccess : Bool) (e : Exchange) : Exchange :=
  { e with challengeVerification := some challengeSuccess }

/-- The call that answers the challenge claims it. -/
def claimAnswer (e : Exchange) : Exchange := { e with challengeAnswerPublishInFlight := true }

def releaseAnswer (e : Exchange) : Exchange := { e with challengeAnswerPublishInFlight := false }

def answerFailed (e : Exchange) : Exchange :=
  { e with challengeAnswerPublishError := true, challengeAnswerPublishInFlight := false }

def withAnswer (e : Exchange) : Exchange := { e with challengeAnswer := true }

def requestFailed (e : Exchange) : Exchange := { e with challengeRequestPublishError := true }

def requestSent (now : Nat) (e : Exchange) : Exchange :=
  { e with challengeRequestPublishTimestamp := some now }

end Exchange

inductive Kind
  | challenge
  | verification (challengeSuccess encrypted : Bool)
deriving DecidableEq, Repr

/-- One delivery of a message: the same message may be delivered again under another number. -/
structure Delivery where
  number : Nat
  challengeRequestId : String
  kind : Kind
deriving DecidableEq, Repr

inductive HandlerPhase
  | notDelivered
  | verifying
  | decrypting
  /-- The verdict is recorded and the comment that came with it is verified. -/
  | updatingComment (challengeSuccess : Bool)
  | finished
deriving DecidableEq, Repr

/-- A call of `publishChallengeAnswers`. -/
inductive AnswerPhase
  | notCalled
  /-- The answer is encrypted and signed. -/
  | signing (id : String)
  | publishing (id : String)
  | published
  | threw
deriving DecidableEq, Repr

/-- `index` is that of the provider, `id` that of the exchange opened for it. -/
inductive Loop
  | generating (index : Nat)
  | subscribing (index : Nat) (id : String)
  | publishing (index : Nat) (id : String)
  /-- `_postSucessOrFailurePublishing` before the publication fails. -/
  | givingUp (code : String)
  | firstWait (index : Nat)
  | regenerating (index : Nat)
  | resubscribing (index : Nat) (id : String)
  | republishing (index : Nat) (id : String)
  | betweenWait (index : Nat)
  | lastWait
  | finished
deriving DecidableEq, Repr

inductive Event
  | challengerequest (id : String)
  | challenge (id : String)
  | challengeanswer (id : String)
  | challengeverification (id : String) (challengeSuccess : Bool)
  | error (code : String)
deriving DecidableEq, Repr

def Event.isChallenge : Event → Bool
  | .challenge _ => true
  | _ => false

def Event.isAnswer : Event → Bool
  | .challengeanswer _ => true
  | _ => false

def Event.isVerdict : Event → Bool
  | .challengeverification _ _ => true
  | _ => false

structure Env where
  /-- `_getPubsubProviders`. -/
  providers : List String
  setProviderFailureThresholdSeconds : Nat

structure State where
  exchanges : List Exchange
  /-- `state` is "stopped". -/
  stopped : Bool
  publishingState : PublishingState
  handler : Delivery → HandlerPhase
  answering : Nat → AnswerPhase
  loop : Loop
  events : List Event

/-- The community is loaded and no exchange opened. -/
def initial : State where
  exchanges := []
  stopped := false
  publishingState := .stopped
  handler _ := .notDelivered
  answering _ := .notCalled
  loop := .generating 0
  events := []

namespace State

def emit (s : State) (event : Event) : State := { s with events := s.events ++ [event] }

def updatePublishingState (s : State) (new : PublishingState) : State :=
  { s with publishingState := new }

/-- The publication fails with an error event. -/
def fail (s : State) (code : String) : State := (s.updatePublishingState .failed).emit (.error code)

def setHandler (s : State) (d : Delivery) (phase : HandlerPhase) : State :=
  { s with handler := Function.update s.handler d phase }

def setAnswering (s : State) (call : Nat) (phase : AnswerPhase) : State :=
  { s with answering := Function.update s.answering call phase }

@[simp] theorem handler_setHandler_self (s : State) (d : Delivery) (phase : HandlerPhase) :
    (s.setHandler d phase).handler d = phase := Function.update_self ..

theorem handler_setHandler_of_ne (s : State) {d e : Delivery} (phase : HandlerPhase)
    (h : e ≠ d) : (s.setHandler d phase).handler e = s.handler e := Function.update_of_ne h ..

@[simp] theorem answering_setAnswering_self (s : State) (call : Nat) (phase : AnswerPhase) :
    (s.setAnswering call phase).answering call = phase := Function.update_self ..

theorem answering_setAnswering_of_ne (s : State) {call other : Nat} (phase : AnswerPhase)
    (h : other ≠ call) : (s.setAnswering call phase).answering other = s.answering other :=
  Function.update_of_ne h ..

def setLoop (s : State) (loop : Loop) : State := { s with loop := loop }

def updateExchange (s : State) (id : String) (f : Exchange → Exchange) : State :=
  { s with exchanges := s.exchanges.map fun e => if e.challengeRequestId = id then f e else e }

def exchangesWithChallenge (s : State) : List Exchange := s.exchanges.filter Exchange.challenge

/-- The exchange of an id has recorded its verdict. -/
def hasVerification (s : State) (id : String) : Bool :=
  s.exchanges.any fun e => e.challengeRequestId = id && e.challengeVerification.isSome

/-- `_didWeReceiveChallengeOrChallengeVerification`. -/
def didWeReceiveChallengeOrChallengeVerification (s : State) : Bool :=
  s.exchanges.any fun e => e.challenge || e.challengeVerification.isSome

/-- `_isAllAttemptsExhausted`. -/
def isAllAttemptsExhausted (env : Env) (s : State) (now : Nat) : Bool :=
  s.exchanges.length == env.providers.length && s.exchanges.all fun e =>
    !(e.challenge || e.challengeVerification.isSome) &&
      (e.challengeRequestPublishError || e.challengeAnswerPublishError ||
        e.challengeRequestPublishTimestamp.any fun t =>
          t + env.setProviderFailureThresholdSeconds ≤ now)

/-! ## The messages of the community -/

/-- `_handleIncomingChallengePubsubMessage`, up to its first await. -/
def handleChallenge (s : State) (d : Delivery) : State :=
  if s.exchangesWithChallenge.isEmpty then s.setHandler d .verifying
  else s.setHandler d .finished

/-- The rest of it: a copy of the challenge may have been recorded in the meantime. -/
def recordChallenge (s : State) (d : Delivery) : State :=
  if s.exchangesWithChallenge.isEmpty then
    (((s.updateExchange d.challengeRequestId Exchange.withChallenge).updatePublishingState
      .waitingChallengeAnswers).emit (.challenge d.challengeRequestId)).setHandler d .finished
  else s.setHandler d .finished

/-- `_handleIncomingChallengeVerificationPubsubMessage`, up to its first await. -/
def handleChallengeVerification (s : State) (d : Delivery) : State :=
  if s.hasVerification d.challengeRequestId then s.setHandler d .finished
  else s.setHandler d .verifying

def verdictState (challengeSuccess : Bool) : PublishingState :=
  if challengeSuccess then .succeeded else .failed

/-- The verdict becomes the state of the publication. -/
def emitVerification (s : State) (d : Delivery) (challengeSuccess : Bool) : State :=
  ({ s with publishingState := verdictState challengeSuccess, stopped := true }.emit
    (.challengeverification d.challengeRequestId challengeSuccess)).setHandler d .finished

/-- What follows the last await before the verdict is recorded. -/
def recordVerification (s : State) (d : Delivery) (challengeSuccess hasComment : Bool) : State :=
  if s.hasVerification d.challengeRequestId then s.setHandler d .finished
  else if hasComment then
    (s.updateExchange d.challengeRequestId (Exchange.withVerification challengeSuccess)).setHandler
      d (.updatingComment challengeSuccess)
  else
    (s.updateExchange d.challengeRequestId
      (Exchange.withVerification challengeSuccess)).emitVerification d challengeSuccess

/-! ## The answers of the user -/

/-- `publishChallengeAnswers`, up to its first await. -/
def publishChallengeAnswers (s : State) (call : Nat) : State :=
  match s.exchangesWithChallenge with
  | [e] =>
    if e.challengeAnswer || e.challengeAnswerPublishInFlight then s.setAnswering call .threw
    else
      (s.updateExchange e.challengeRequestId Exchange.claimAnswer).setAnswering call
        (.signing e.challengeRequestId)
  | _ => s.setAnswering call .threw

def answerSigned (s : State) (call : Nat) (id : String) (ok : Bool) : State :=
  if ok then
    (s.updatePublishingState .publishingChallengeAnswer).setAnswering call (.publishing id)
  else (s.updateExchange id Exchange.releaseAnswer).setAnswering call .threw

def answerPublished (s : State) (call : Nat) (id : String) (ok : Bool) : State :=
  if ok then
    (((s.updateExchange id Exchange.withAnswer).updatePublishingState
      .waitingChallengeVerification).emit (.challengeanswer id)).setAnswering call .published
  else
    ((s.updateExchange id Exchange.answerFailed).updatePublishingState .failed).setAnswering call
      .threw

/-! ## The publish loop -/

/-- The `while` of `publish`; behind it the first wait begins. -/
def publishLoop (env : Env) (s : State) (index : Nat) : State :=
  if !s.didWeReceiveChallengeOrChallengeVerification && index < env.providers.length then
    s.setLoop (.generating index)
  else s.setLoop (.firstWait index)

/-- The `while` of `_handleNotReceivingResponseToChallengeRequest`. -/
def retryLoop (env : Env) (s : State) (index : Nat) : State :=
  if !s.didWeReceiveChallengeOrChallengeVerification && index < env.providers.length then
    s.setLoop (.regenerating index)
  else s.setLoop .lastWait

/-- `_generateChallengeRequestToPublish` opens the exchange. -/
def openExchange (env : Env) (s : State) (index : Nat) (id : String) : State :=
  { s with
    exchanges := s.exchanges ++
      [{ challengeRequestId := id, providerUrl := (env.providers[index]?).getD "" }]
    publishingState := .publishingChallengeRequest }

def requestFailed (s : State) (id : String) : State :=
  s.updateExchange id Exchange.requestFailed

/-- `_postSucessOrFailurePublishing` before the publication fails. -/
def giveUp (s : State) (code : String) : State := { s with stopped := true, loop := .givingUp code }

/-- The `catch` of `publish`. -/
def publishFailed (env : Env) (s : State) (index : Nat) (id : String) (now : Nat) : State :=
  if (s.requestFailed id).isAllAttemptsExhausted env now then
    (s.requestFailed id).giveUp "ERR_ALL_PUBSUB_PROVIDERS_THROW_ERRORS"
  else (s.requestFailed id).publishLoop env (index + 1)

def requestSent (s : State) (id : String) (now : Nat) : State :=
  s.updateExchange id (Exchange.requestSent now)

/-- The request of `publish` is published. -/
def published (s : State) (index : Nat) (id : String) (now : Nat) : State :=
  (((s.requestSent id now).updatePublishingState .waitingChallenge).emit
    (.challengerequest id)).setLoop (.firstWait index)

/-- A retry that was answered while it was published leaves the state as it is. -/
def waitForChallenge (s : State) : State :=
  if s.didWeReceiveChallengeOrChallengeVerification then s
  else s.updatePublishingState .waitingChallenge

/-- The wait before the next provider, if there is one. -/
def waitForNext (env : Env) (s : State) (index : Nat) : State :=
  if index ≠ env.providers.length then s.setLoop (.betweenWait index) else s.retryLoop env index

/-- The request of a retry is published. -/
def republished (env : Env) (s : State) (index : Nat) (id : String) (now : Nat) : State :=
  ((s.requestSent id now).waitForChallenge.emit (.challengerequest id)).waitForNext env (index + 1)

/-- `_handleNotReceivingResponseToChallengeRequest`, after the first wait. -/
def firstWaitOver (env : Env) (s : State) (index : Nat) (now : Nat) : State :=
  if s.didWeReceiveChallengeOrChallengeVerification then s.setLoop .finished
  else if s.isAllAttemptsExhausted env now then
    s.giveUp "ERR_PUBSUB_DID_NOT_RECEIVE_RESPONSE_AFTER_PUBLISHING_CHALLENGE_REQUEST"
  else if s.stopped then s.setLoop .finished
  else if index + 1 = env.providers.length then { s with stopped := true, loop := .finished }
  else s.retryLoop env (index + 1)

/-- What follows its loop. -/
def lastWaitOver (env : Env) (s : State) (now : Nat) : State :=
  if s.stopped then s.setLoop .finished
  else if s.didWeReceiveChallengeOrChallengeVerification then s.setLoop .finished
  else if s.isAllAttemptsExhausted env now then
    s.giveUp "ERR_ALL_PUBSUB_PROVIDERS_THROW_ERRORS"
  else s.setLoop .finished

end State

/-! ## Steps -/

inductive Action
  | deliver (d : Delivery)
  /-- `verifyChallengeMessage` and `verifyChallengeVerification`. -/
  | verified (d : Delivery) (valid : Bool)
  /-- A CHALLENGE is decrypted and parsed, or the code of the error. -/
  | challengeDecrypted (d : Delivery) (result : Except String Unit)
  /-- A CHALLENGEVERIFICATION is decrypted and parsed: whether a comment came with it. -/
  | verificationDecrypted (d : Delivery) (result : Except String Bool)
  | commentUpdated (d : Delivery) (ok : Bool)
  | publishChallengeAnswers (call : Nat)
  | answerSigned (call : Nat) (ok : Bool)
  | answerPublished (call : Nat) (ok : Bool)
  /-- The id of the new exchange, or nothing if the request cannot be generated. -/
  | requestGenerated (id : Option String)
  | subscribed (ok : Bool) (now : Nat)
  | requestPublished (ok : Bool) (now : Nat)
  | cleanedUp
  | woke (now : Nat)

open State in
/-- One step; an action nothing waits for is not possible. -/
def step (env : Env) (s : State) : Action → Option State
  | .deliver d =>
    match s.handler d, s.exchanges.any fun e => e.challengeRequestId = d.challengeRequestId,
        d.kind with
    | .notDelivered, false, _ => some (s.setHandler d .finished)
    | .notDelivered, true, .challenge => some (s.handleChallenge d)
    | .notDelivered, true, .verification _ _ => some (s.handleChallengeVerification d)
    | _, _, _ => none
  | .verified d valid =>
    match s.handler d, valid, d.kind with
    | .verifying, false, .challenge =>
      some ((s.fail "ERR_CHALLENGE_SIGNATURE_IS_INVALID").setHandler d .finished)
    | .verifying, false, .verification _ _ =>
      some ((s.fail "ERR_CHALLENGE_VERIFICATION_SIGNATURE_IS_INVALID").setHandler d .finished)
    | .verifying, true, .challenge => some (s.setHandler d .decrypting)
    | .verifying, true, .verification true true => some (s.setHandler d .decrypting)
    | .verifying, true, .verification challengeSuccess _ =>
      some (s.recordVerification d challengeSuccess false)
    | _, _, _ => none
  | .challengeDecrypted d result =>
    match s.handler d, d.kind, result with
    | .decrypting, .challenge, .ok _ => some (s.recordChallenge d)
    | .decrypting, .challenge, .error code => some ((s.fail code).setHandler d .finished)
    | _, _, _ => none
  | .verificationDecrypted d result =>
    match s.handler d, d.kind, result with
    | .decrypting, .verification challengeSuccess _, .ok hasComment =>
      some (s.recordVerification d challengeSuccess hasComment)
    | .decrypting, .verification _ _, .error code =>
      some ((s.emit (.error code)).setHandler d .finished)
    | _, _, _ => none
  | .commentUpdated d ok =>
    match s.handler d, ok with
    | .updatingComment challengeSuccess, true => some (s.emitVerification d challengeSuccess)
    | .updatingComment _, false => some (s.setHandler d .finished)
    | _, _ => none
  | .publishChallengeAnswers call =>
    match s.answering call with
    | .notCalled => some (s.publishChallengeAnswers call)
    | _ => none
  | .answerSigned call ok =>
    match s.answering call with
    | .signing id => some (s.answerSigned call id ok)
    | _ => none
  | .answerPublished call ok =>
    match s.answering call with
    | .publishing id => some (s.answerPublished call id ok)
    | _ => none
  | .requestGenerated none =>
    match s.loop with
    | .generating _ | .regenerating _ => some (s.setLoop .finished)
    | _ => none
  | .requestGenerated (some id) =>
    if s.exchanges.any fun e => e.challengeRequestId = id then none
    else match s.loop with
      | .generating index => some ((s.openExchange env index id).setLoop (.subscribing index id))
      | .regenerating index =>
        some ((s.openExchange env index id).setLoop (.resubscribing index id))
      | _ => none
  | .subscribed ok now =>
    match s.loop, ok with
    | .subscribing index id, true =>
      some (s.setLoop (if s.stopped then .finished else .publishing index id))
    | .subscribing index id, false => some (s.publishFailed env index id now)
    | .resubscribing index id, true =>
      some (s.setLoop (if s.stopped then .finished else .republishing index id))
    | .resubscribing index id, false => some ((s.requestFailed id).retryLoop env (index + 1))
    | _, _ => none
  | .requestPublished ok now =>
    match s.loop, ok with
    | .publishing index id, true => some (s.published index id now)
    | .publishing index id, false => some (s.publishFailed env index id now)
    | .republishing index id, true => some (s.republished env index id now)
    | .republishing index id, false => some ((s.requestFailed id).retryLoop env (index + 1))
    | _, _ => none
  | .cleanedUp =>
    match s.loop with
    | .givingUp code => some ((s.fail code).setLoop .finished)
    | _ => none
  | .woke now =>
    match s.loop with
    | .firstWait index => some (s.firstWaitOver env index now)
    | .betweenWait index => some (s.retryLoop env index)
    | .lastWait => some (s.lastWaitOver env now)
    | _ => none

end Publisher
end Pkc

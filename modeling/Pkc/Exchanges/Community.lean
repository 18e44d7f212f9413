import Pkc.Library.LruCache
import Pkc.Library.Runs
import Mathlib.Logic.Function.Basic

/-!
# The challenge exchanges of a community

A community handles the CHALLENGEREQUEST and CHALLENGEANSWER messages of its pubsub topic and of
local publishers as they come.  The handlers run side by side: each stands at one of its awaits
(`Phase`), and what ends the await is the action that resumes it, so every interleaving is a list of
actions.

* The exchanges are tracked under the `challengeRequestId` of the message in three caches with a
  time to live (`_ongoingChallengeExchanges`, `_challengeAnswerPromises` and
  `_challengeAnswerResolveReject`) and in `_challengeExchangesFromLocalPublishers`.
* `handleChallengeRequest` marks the exchange as ongoing before it verifies the signature; the
  promise of the answer is registered only when the challenge has been published.
* `handleChallengeAnswer` answers a message without an exchange, drops the exchange of a message
  whose signature is invalid, and otherwise hands the answers to the waiting handler.
* Every handler that publishes a CHALLENGEVERIFICATION releases the exchange of its id.

A handler is named by the delivery it handles.  Awaits between which a handler touches none of the
shared state are one step.
-/

set_option autoImplicit false

namespace Pkc
namespace Exchanges

/-! ## Messages -/

/-- The fields of a message its handler looks at before it is decrypted. -/
structure Message where
  challengeRequestId : String
  /-- `signature.publicKey`. -/
  publicKey : String
  /-- `_allFieldsOfRecordInSignedPropertyNames`. -/
  allFieldsSigned : Bool
  /-- `_validateSignatureOfPubsubMsg`. -/
  signatureValid : Bool
deriving DecidableEq, Repr

inductive Kind
  | request (isLocalPublisher : Bool)
  | answer
deriving DecidableEq, Repr

/-- One delivery of a message: the same message may be delivered again under another number. -/
structure Delivery where
  number : Nat
  kind : Kind
  message : Message
deriving DecidableEq, Repr

def Delivery.id (d : Delivery) : String := d.message.challengeRequestId

def Delivery.isRequest (d : Delivery) : Bool :=
  match d.kind with
  | .request _ => true
  | .answer => false

structure Env where
  /-- `getPeerIdFromPublicKeyBuffer`. -/
  peerId : String → String
  /-- `challengeExchangePubsubTopic`: none while the exchange is disabled. -/
  challengeTopic : Option String

/-- `verifyChallengeRequest` and `verifyChallengeAnswer`. -/
def verifyChallengeMessage (env : Env) (message : Message) (timestampInRange : Bool) : Bool :=
  message.allFieldsSigned && (env.peerId message.publicKey == message.challengeRequestId) &&
    timestampInRange && message.signatureValid

/-- The message passes its check if its timestamp does. -/
def Delivery.signed (env : Env) (d : Delivery) : Bool :=
  verifyChallengeMessage env d.message true

theorem verifyChallengeMessage_of_not_signed {env : Env} {d : Delivery}
    (h : d.signed env = false) (timestampInRange : Bool) :
    verifyChallengeMessage env d.message timestampInRange = false := by
  cases timestampInRange with
  | true => exact h
  | false => simp [verifyChallengeMessage]

/-- What a CHALLENGEVERIFICATION says. -/
structure Verdict where
  challengeSuccess : Bool
  reason : Option String
deriving DecidableEq, Repr

def Verdict.success : Verdict := ⟨true, none⟩

def Verdict.failure (reason : Option String) : Verdict := ⟨false, reason⟩

/-- A published CHALLENGEVERIFICATION, with the delivery whose handler published it. -/
structure Verification where
  challengeRequestId : String
  verdict : Verdict
  overPubsub : Bool
  cause : Delivery
deriving DecidableEq, Repr

/-! ## The state -/

abbrev Answers := List String

/-- Where the handler of a delivery stands.  `signature` is that of the publication, under which the
handler holds the lock of the exchanges in flight. -/
inductive Phase
  | notDelivered
  | verifying
  /-- The request is decrypted, parsed and the signature of its publication verified. -/
  | parsing
  | waitingForInFlightExchange (signature : String)
  | validating (signature : String)
  | challenging (signature : String)
  /-- The CHALLENGE has been handed to pubsub, the publish has not returned. -/
  | publishingChallenge (signature : String)
  /-- The promise of the answer is registered; `answers` is what it was resolved with. -/
  | waitingForAnswer (signature : String) (answers : Option Answers)
  | checkingAnswers (signature : String) (answers : Answers)
  | storing (signature : String)
  | publishingVerification (signature : Option String) (verdict : Verdict) (overPubsub : Bool)
  /-- The signature of the publication is invalid, and that verdict is being published inside the
  `try` of `parseChallengeRequest`. -/
  | refusingSignature (verdict : Verdict) (overPubsub : Bool)
  /-- The answer is decrypted and parsed. -/
  | decrypting
  | completed
  /-- A rejection inside that `try` was swallowed: the handler has returned without a verdict. -/
  | abandoned
  /-- A duplicate request. -/
  | duplicate
  /-- The answers were handed to the promise of the exchange. -/
  | answered
  /-- A valid answer without a promise to hand it to. -/
  | lost
  | threw
deriving DecidableEq, Repr

structure State where
  ongoingChallengeExchanges : LruCache String Bool
  challengeAnswerPromises : LruCache String Delivery
  challengeAnswerResolveReject : LruCache String Delivery
  challengeExchangesFromLocalPublishers : List String
  /-- The handler that holds the lock of a publication. -/
  inFlightPublicationExchanges : List (String × Delivery)
  phase : Delivery → Phase
  delivered : List Delivery
  verifications : List Verification
  /-- History: the exchange that was open under its id when an answer arrived. -/
  exchangeOf : Delivery → Option Delivery
  /-- History: the challenge of that exchange had been sent and was waiting for its answer. -/
  onTime : Delivery → Bool
  /-- History: the answer an exchange went on with. -/
  answeredBy : Delivery → Option (Delivery × Answers)

def initial : State where
  ongoingChallengeExchanges := []
  challengeAnswerPromises := []
  challengeAnswerResolveReject := []
  challengeExchangesFromLocalPublishers := []
  inFlightPublicationExchanges := []
  phase _ := .notDelivered
  delivered := []
  verifications := []
  exchangeOf _ := none
  onTime _ := false
  answeredBy _ := none

/-- The handler of a request has accepted it and not returned. -/
def Phase.isOpen : Phase → Bool
  | .verifying | .parsing | .waitingForInFlightExchange _ | .validating _ | .challenging _
  | .publishingChallenge _ | .waitingForAnswer _ _ | .checkingAnswers _ _ | .storing _
  | .publishingVerification _ _ _ | .refusingSignature _ _ => true
  | _ => false

/-- The author may have received the challenge and has not answered it. -/
def Phase.awaitsAnswer : Phase → Bool
  | .publishingChallenge _ | .waitingForAnswer _ none => true
  | _ => false

namespace State

/-- The exchange that is open under an id. -/
def openExchange (s : State) (id : String) : Option Delivery :=
  s.delivered.find? fun d => d.isRequest && d.id == id && (s.phase d).isOpen

def setPhase (s : State) (d : Delivery) (phase : Phase) : State :=
  { s with phase := Function.update s.phase d phase }

@[simp] theorem phase_setPhase_self (s : State) (d : Delivery) (phase : Phase) :
    (s.setPhase d phase).phase d = phase := Function.update_self ..

theorem phase_setPhase_of_ne (s : State) {d e : Delivery} (phase : Phase) (h : e ≠ d) :
    (s.setPhase d phase).phase e = s.phase e := Function.update_of_ne h ..

/-- A message arrives. -/
def deliver (s : State) (d : Delivery) : State := { s with delivered := s.delivered ++ [d] }

/-- What an answer finds when it arrives. -/
def recordExchange (s : State) (d : Delivery) : State :=
  { s with
    exchangeOf := Function.update s.exchangeOf d (s.openExchange d.id)
    onTime := Function.update s.onTime d
      ((s.openExchange d.id).any fun e => (s.phase e).awaitsAnswer) }

/-- `_ongoingChallengeExchanges.set(id, true)`. -/
def setOngoing (s : State) (id : String) : State :=
  { s with ongoingChallengeExchanges := s.ongoingChallengeExchanges.set 1000 id true }

/-- `_challengeAnswerResolveReject.get(id)` makes the entry the most recently used one. -/
def readPromise (s : State) (id : String) : State :=
  { s with challengeAnswerResolveReject := s.challengeAnswerResolveReject.touch id }

/-- The promise of a waiting exchange is resolved with the answers of `d`. -/
def takeAnswers (s : State) (exchange : Delivery) (signature : String) (d : Delivery)
    (answers : Answers) : State :=
  { s with answeredBy := Function.update s.answeredBy exchange (some (d, answers)) }.setPhase
    exchange (.waitingForAnswer signature (some answers))

section TakeAnswers

variable (s : State) {exchange e : Delivery} (signature : String) (d : Delivery)
  (answers : Answers)

@[simp] theorem phase_takeAnswers_self :
    (s.takeAnswers exchange signature d answers).phase exchange =
      .waitingForAnswer signature (some answers) := phase_setPhase_self ..

theorem phase_takeAnswers_of_ne (h : e ≠ exchange) :
    (s.takeAnswers exchange signature d answers).phase e = s.phase e :=
  phase_setPhase_of_ne _ _ h

@[simp] theorem answeredBy_takeAnswers_self :
    (s.takeAnswers exchange signature d answers).answeredBy exchange = some (d, answers) :=
  Function.update_self ..

theorem answeredBy_takeAnswers_of_ne (h : e ≠ exchange) :
    (s.takeAnswers exchange signature d answers).answeredBy e = s.answeredBy e :=
  Function.update_of_ne h ..

end TakeAnswers

/-- `cleanUpChallengeAnswerPromise`. -/
def cleanUpChallengeAnswerPromise (s : State) (id : String) : State :=
  { s with
    challengeAnswerPromises := s.challengeAnswerPromises.delete id
    challengeAnswerResolveReject := s.challengeAnswerResolveReject.delete id
    challengeExchangesFromLocalPublishers :=
      s.challengeExchangesFromLocalPublishers.filter fun localId => localId ≠ id }

/-- The exchange of an id is over. -/
def releaseExchange (s : State) (id : String) : State :=
  { s.cleanUpChallengeAnswerPromise id with
    ongoingChallengeExchanges := s.ongoingChallengeExchanges.delete id }

/-- The `finally` block of `handleChallengeRequest`: only its own entry is removed. -/
def releaseLock (s : State) (d : Delivery) (signature : Option String) : State :=
  match signature with
  | none => s
  | some signature =>
    { s with inFlightPublicationExchanges :=
        s.inFlightPublicationExchanges.filter fun entry => entry ≠ (signature, d) }

theorem releaseLock_eq (s : State) (d : Delivery) (signature : Option String) :
    ∃ locks, s.releaseLock d signature = { s with inFlightPublicationExchanges := locks } := by
  cases signature with
  | none => exact ⟨_, rfl⟩
  | some => exact ⟨_, rfl⟩

/-- A verdict is published over pubsub unless the exchange is of a local publisher. -/
def publishesOverPubsub (env : Env) (s : State) (d : Delivery) : Bool :=
  env.challengeTopic.isSome && decide (d.id ∉ s.challengeExchangesFromLocalPublishers)

/-- A handler publishes its verdict. -/
def publishVerification (env : Env) (s : State) (d : Delivery) (signature : Option String)
    (verdict : Verdict) : State :=
  s.setPhase d (.publishingVerification signature verdict (s.publishesOverPubsub env d))

/-- `respondWithErrorIfSignatureOfPublicationIsInvalid`, for a signature that is invalid. -/
def refuseSignature (env : Env) (s : State) (d : Delivery) (reason : String) : State :=
  s.setPhase d (.refusingSignature (.failure reason) (s.publishesOverPubsub env d))

/-- The verdict is published; its exchange is released. -/
def verificationPublished (s : State) (d : Delivery) (signature : Option String)
    (verdict : Verdict) (overPubsub : Bool) : State :=
  let published : Verification := ⟨d.id, verdict, overPubsub, d⟩
  (({ s with verifications := s.verifications ++ [published] }.releaseExchange d.id).releaseLock d
    signature).setPhase d .completed

end State

/-! ## What the awaits of a handler answer -/

/-- `getChallengeVerification` decides without a challenge, or publishes one. -/
inductive Challenged
  | decided (result : Verdict)
  | publishChallenges

/-- `validatePublicationOrRespondWithFailure` and `storePublication`. -/
inductive Checked
  | ok
  | invalid (reason : String)
  /-- Stored before: answered with the stored copy, if there is one to answer with. -/
  | duplicate (reason : String) (answerable : Bool)

/-- `publishIdempotentDuplicateVerification`. -/
def idempotentVerdict (reason : String) (answerable : Bool) : Verdict :=
  if answerable then .success else .failure reason

inductive Cache
  | ongoing
  | promises
  | resolveReject
deriving DecidableEq, Repr

inductive Action
  | deliver (d : Delivery)
  | verified (d : Delivery) (timestampInRange : Bool)
  /-- The publication's signature, or the reason of a failure but that of its signature. -/
  | parsed (d : Delivery) (result : Except String String)
  /-- The signature of the publication is invalid for a reason, or its check rejects. -/
  | signatureRefused (d : Delivery) (reason : Option String)
  /-- The exchange in flight settled, or the wait for it ran out. -/
  | inFlightSettled (d : Delivery) (waitedOut : Bool)
  | validated (d : Delivery) (result : Checked)
  | challenged (d : Delivery) (result : Challenged)
  | challengePublished (d : Delivery) (ok : Bool)
  | answerResumed (d : Delivery)
  | timedOut (d : Delivery)
  | answersChecked (d : Delivery) (result : Verdict)
  | stored (d : Delivery) (result : Checked)
  | decrypted (d : Delivery) (result : Except String Answers)
  | verificationPublished (d : Delivery) (ok : Bool)
  /-- An await rejects. -/
  | throws (d : Delivery)
  /-- The time to live of an entry is over. -/
  | expire (cache : Cache) (id : String)

/-! ## The handlers -/

/-- `handleChallengeRequest`, up to its first await. -/
def handleChallengeRequest (s : State) (d : Delivery) (isLocalPublisher : Bool) : State :=
  if s.ongoingChallengeExchanges.has d.id then s.setPhase d .duplicate
  else
    ({ s with challengeExchangesFromLocalPublishers :=
        if isLocalPublisher then d.id :: s.challengeExchangesFromLocalPublishers
        else s.challengeExchangesFromLocalPublishers }.setOngoing d.id).setPhase d .verifying

/-- `handleChallengeAnswer`, up to its first await. -/
def handleChallengeAnswer (env : Env) (s : State) (d : Delivery) : State :=
  if s.ongoingChallengeExchanges.has d.id then s.setPhase d .verifying
  else s.publishVerification env d none
    (.failure "ERR_CHALLENGE_ANSWER_WITH_NO_CHALLENGE_REQUEST")

/-- The exchange of a request is decided: a publication that succeeded is stored. -/
def decideExchange (env : Env) (s : State) (d : Delivery) (signature : String)
    (result : Verdict) : State :=
  if result.challengeSuccess then s.setPhase d (.storing signature)
  else s.publishVerification env d (some signature) (.failure result.reason)

/-- The rest of `getChallengeAnswers` once the challenge is published: only now the promise of the
answer is registered. -/
def registerAnswerPromise (s : State) (d : Delivery) (signature : String) : State :=
  { s.setOngoing d.id with
    challengeAnswerResolveReject := s.challengeAnswerResolveReject.set 1000 d.id d
    challengeAnswerPromises := s.challengeAnswerPromises.set 1000 d.id d }.setPhase d
      (.waitingForAnswer signature none)

/-- The rest of `handleChallengeAnswer`: a promise is resolved by the first answers only. -/
def resolveAnswerPromise (s : State) (d : Delivery) (answers : Answers) : State :=
  match s.challengeAnswerResolveReject.lookup d.id with
  | none => s.setPhase d .lost
  | some exchange =>
    match s.phase exchange with
    | .waitingForAnswer signature none =>
      ((s.readPromise d.id).takeAnswers exchange signature d answers).setPhase d .answered
    | _ => (s.readPromise d.id).setPhase d .answered

/-- An answer whose signature is invalid drops the exchange it names. -/
def dropExchange (s : State) (d : Delivery) : State :=
  (s.releaseExchange d.id).setPhase d .threw

def State.expire (s : State) (cache : Cache) (id : String) : State :=
  match cache with
  | .ongoing => { s with ongoingChallengeExchanges := s.ongoingChallengeExchanges.expire id }
  | .promises => { s with challengeAnswerPromises := s.challengeAnswerPromises.expire id }
  | .resolveReject =>
    { s with challengeAnswerResolveReject := s.challengeAnswerResolveReject.expire id }

/-- One step; an action for a handler that does not wait for it is not possible. -/
def step (env : Env) (s : State) : Action → Option State
  | .deliver d =>
    match s.phase d, d.kind with
    | .notDelivered, .request isLocalPublisher =>
      some (handleChallengeRequest (s.deliver d) d isLocalPublisher)
    | .notDelivered, .answer => some (handleChallengeAnswer env ((s.recordExchange d).deliver d) d)
    | _, _ => none
  | .verified d timestampInRange =>
    match s.phase d with
    | .verifying =>
      match d.kind, verifyChallengeMessage env d.message timestampInRange with
      | .request _, true => some (s.setPhase d .parsing)
      | .request _, false => some (s.setPhase d .threw)
      | .answer, true => some (s.setPhase d .decrypting)
      | .answer, false => some (dropExchange s d)
    | _ => none
  | .parsed d result =>
    match s.phase d, result with
    | .parsing, .error reason => some (s.publishVerification env d none (.failure reason))
    | .parsing, .ok signature => some (s.setPhase d (.waitingForInFlightExchange signature))
    | _, _ => none
  | .signatureRefused d reason =>
    match s.phase d, reason with
    | .parsing, some reason => some (s.refuseSignature env d reason)
    | .parsing, none => some (s.setPhase d .abandoned)
    | _, _ => none
  | .inFlightSettled d waitedOut =>
    match s.phase d with
    | .waitingForInFlightExchange signature =>
      if waitedOut || (s.inFlightPublicationExchanges.lookup signature).isNone then
        some ({ s with inFlightPublicationExchanges :=
          (signature, d) :: s.inFlightPublicationExchanges.filter fun entry =>
            entry.1 ≠ signature }.setPhase d (.validating signature))
      else none
    | _ => none
  | .validated d result =>
    match s.phase d, result with
    | .validating signature, .ok => some (s.setPhase d (.challenging signature))
    | .validating signature, .invalid reason =>
      some (s.publishVerification env d (some signature) (.failure reason))
    | .validating signature, .duplicate reason answerable =>
      some (s.publishVerification env d (some signature) (idempotentVerdict reason answerable))
    | _, _ => none
  | .challenged d result =>
    match s.phase d, result with
    | .challenging signature, .decided result => some (decideExchange env s d signature result)
    | .challenging signature, .publishChallenges =>
      some (s.setPhase d (.publishingChallenge signature))
    | _, _ => none
  | .challengePublished d ok =>
    match s.phase d, ok with
    | .publishingChallenge signature, true => some (registerAnswerPromise s d signature)
    | .publishingChallenge signature, false => some (decideExchange env s d signature
        (.failure "One of the community challenges is misconfigured"))
    | _, _ => none
  | .answerResumed d =>
    match s.phase d with
    | .waitingForAnswer signature (some answers) =>
      some ((s.cleanUpChallengeAnswerPromise d.id).setPhase d (.checkingAnswers signature answers))
    | _ => none
  | .timedOut d =>
    match s.phase d with
    | .waitingForAnswer signature none =>
      some (decideExchange env (s.cleanUpChallengeAnswerPromise d.id) d signature
        (.failure "ERR_COMMUNITY_TIMED_OUT_WAITING_FOR_CHALLENGE_ANSWER"))
    | _ => none
  | .answersChecked d result =>
    match s.phase d with
    | .checkingAnswers signature _ => some (decideExchange env s d signature result)
    | _ => none
  | .stored d result =>
    match s.phase d, result with
    | .storing signature, .ok => some (s.publishVerification env d (some signature) .success)
    | .storing signature, .invalid reason =>
      some (s.publishVerification env d (some signature) (.failure reason))
    | .storing signature, .duplicate reason answerable =>
      some (s.publishVerification env d (some signature) (idempotentVerdict reason answerable))
    | _, _ => none
  | .decrypted d result =>
    match s.phase d, result with
    | .decrypting, .error reason => some (s.publishVerification env d none (.failure reason))
    | .decrypting, .ok answers => some (resolveAnswerPromise s d answers)
    | _, _ => none
  | .verificationPublished d ok =>
    match s.phase d, ok with
    | .publishingVerification signature verdict overPubsub, true =>
      some (s.verificationPublished d signature verdict overPubsub)
    | .publishingVerification signature _ true, false =>
      some ((s.releaseLock d signature).setPhase d .threw)
    | .refusingSignature verdict overPubsub, true =>
      some (s.verificationPublished d none verdict overPubsub)
    | .refusingSignature _ true, false => some (s.setPhase d .abandoned)
    | _, _ => none
  | .throws d =>
    match s.phase d with
    | .verifying | .parsing | .waitingForInFlightExchange _ => some (s.setPhase d .threw)
    | .validating signature => some ((s.releaseLock d (some signature)).setPhase d .threw)
    | _ => none
  | .expire cache id => some (s.expire cache id)

end Exchanges
end Pkc

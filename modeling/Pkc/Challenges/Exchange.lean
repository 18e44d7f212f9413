import Mathlib.Logic.Function.Basic
import Pkc.Challenges.Exclude

/-!
# The challenge exchange

A publication is accepted after a challenge exchange.  `getPendingChallengesOrChallengeVerification`
runs the challenges of the community at the time of the request, in an order that respects what
their exclude items list; if one of them has to be answered by the author,
`getChallengeVerificationFromChallengeAnswers` continues once the answers are there.

* `Progress` is what both keep for each challenge: whether it is decided, whether it is deferred to
  the time of the answers, and the result it has.
* `resolve` is the loop of both: passes over the undecided challenges, and what happens when a pass
  decides none of them.
* `classify` counts the failures, collects the pending challenges and merges what the challenges
  add to the comment.
* `getChallengeVerification` is the whole exchange; beside what its caller is told it gives the
  progress the verification was read off.
-/

set_option autoImplicit false

namespace Pkc
namespace Challenges

open Json
open Validation (Message commentSignedPropertyNames)

/-! ## The results of a challenge -/

/-- `ChallengeResult`; the last two fields of a success are `comment` and `commentUpdate`. -/
inductive ChallengeResult
  | success (comment commentUpdate : Option Fields)
  | failure (error : String) (reason : Option String)

/-- What the author is sent of a challenge. -/
structure Challenge where
  challenge : String
  type : String
  caseInsensitive : Option Bool
deriving DecidableEq, Repr

/-- `Challenge | ChallengeResult`. -/
inductive Outcome
  | result (r : ChallengeResult)
  | pending (c : Challenge)

inductive ExchangeError
  | ERR_INVALID_RESULT_FROM_GET_CHALLENGE_FUNCTION (challengeIndex : Nat)
  | ERR_CHALLENGE_RESULT_OVERRIDES_COMMENT_SIGNED_FIELD (challengeIndex : Nat) (offendingKey : String)
  | ERR_CHALLENGE_RESULT_OVERRIDES_RESERVED_COMMENT_UPDATE_FIELD (challengeIndex : Nat)
      (offendingKey : String)
  | ERR_CHALLENGE_RESULT_OVERRIDES_NON_COMMUNITY_AUTHOR_KEY (challengeIndex : Nat)
      (offendingKey : String)
  | ERR_CHALLENGE_RESULT_OVERRIDES_RESERVED_COMMUNITY_AUTHOR_FIELD (challengeIndex : Nat)
      (offendingKey : String)
  /-- `verify` of the challenge rejects, or gives something that is no result. -/
  | verifyFailed (challengeIndex : Nat)
  /-- The author's answers did not arrive. -/
  | noChallengeAnswers
  | challengesNotDefined
deriving DecidableEq, Repr

/-- The challenges' own code.  No challenge is asked twice in one exchange, so a function of the
index is any behaviour. -/
structure Behaviour where
  /-- `none` when it throws, or gives something that is neither a challenge nor a result. -/
  getChallenge : Nat → Option Outcome
  verify : Nat → Option String → Option ChallengeResult
  /-- The author's answers to the challenges they are sent. -/
  getChallengeAnswers : List Challenge → Option (List String)

/-- Everything an exchange depends on. -/
structure Input where
  env : Env
  community : Validation.Community
  request : ChallengeRequest
  /-- `community.settings.challenges`. -/
  challenges : Option (List CommunityChallenge)
  behaviour : Behaviour

namespace Input

variable (input : Input)

def settings : List CommunityChallenge := input.challenges.getD []

def challengeCount : Nat := input.settings.length

/-- The exclude items of a challenge. -/
def itemsOf (i : Nat) : List Exclude :=
  match input.settings[i]? with
  | none => []
  | some c => c.items

/-- The challenge is excluded for this request. -/
def excludes (i : Nat) : ShouldExcludeResult :=
  match input.settings[i]? with
  | none => ⟨false, none⟩
  | some c => requestExcludes input.env input.community input.request c

def pendingApproval (i : Nat) : Bool :=
  match input.settings[i]? with
  | none => false
  | some c => c.pendingApproval = some true

end Input

/-! ## Progress -/

abbrev Results := Nat → Option Outcome

def isPending : Option Outcome → Bool
  | some (.pending _) => true
  | _ => false

def isSuccess : Option Outcome → Bool
  | some (.result (.success _ _)) => true
  | _ => false

def isFailure : Option Outcome → Bool
  | some (.result (.failure _ _)) => true
  | _ => false

structure Progress where
  decided : Nat → Bool
  deferred : Nat → Bool
  results : Results

namespace Progress

variable (s : Progress) (i : Nat)

def setDecided : Progress := { s with decided := Function.update s.decided i true }

def setDeferred : Progress :=
  { s with
    decided := Function.update s.decided i true
    deferred := Function.update s.deferred i true }

def setResult (outcome : Outcome) : Progress :=
  { s with
    decided := Function.update s.decided i true
    results := Function.update s.results i (some outcome) }

/-- Defers every undecided challenge. -/
def deferRemaining (n : Nat) : Progress :=
  { s with
    decided := fun i => s.decided i || i < n
    deferred := fun i => s.deferred i || (!s.decided i && i < n) }

section Fields

variable (n : Nat) (outcome : Outcome) (j : Nat)

@[simp] theorem setDecided_decided :
    (s.setDecided i).decided j = if j = i then true else s.decided j := Function.update_apply ..

@[simp] theorem setDecided_deferred : (s.setDecided i).deferred j = s.deferred j := rfl

@[simp] theorem setDecided_results : (s.setDecided i).results = s.results := rfl

@[simp] theorem setDeferred_decided :
    (s.setDeferred i).decided j = if j = i then true else s.decided j := Function.update_apply ..

@[simp] theorem setDeferred_deferred :
    (s.setDeferred i).deferred j = if j = i then true else s.deferred j := Function.update_apply ..

@[simp] theorem setDeferred_results : (s.setDeferred i).results = s.results := rfl

@[simp] theorem setResult_decided :
    (s.setResult i outcome).decided j = if j = i then true else s.decided j :=
  Function.update_apply ..

@[simp] theorem setResult_deferred : (s.setResult i outcome).deferred j = s.deferred j := rfl

@[simp] theorem setResult_results :
    (s.setResult i outcome).results j = if j = i then some outcome else s.results j :=
  Function.update_apply ..

@[simp] theorem deferRemaining_decided :
    (s.deferRemaining n).decided j = (s.decided j || decide (j < n)) := rfl

@[simp] theorem deferRemaining_deferred :
    (s.deferRemaining n).deferred j = (s.deferred j || (!s.decided j && decide (j < n))) := rfl

@[simp] theorem deferRemaining_results : (s.deferRemaining n).results = s.results := rfl

end Fields

/-- `decided.findIndex((d) => !d)`. -/
def firstUndecided (n : Nat) : Option Nat := (List.range n).find? fun i => !s.decided i

end Progress

/-! ## The decision about an undecided challenge -/

inductive PhaseExclusionDecision
  | exclude | defer | ready | skip
deriving DecidableEq, Repr

section Decisions

variable (input : Input) (s : Progress) (i : Nat)

/-- An exclude item of `j` lists `i`. -/
def referencesBack (j : Nat) : Bool := (input.itemsOf j).any fun item => i ∈ item.deps

/-- The loop of `evaluatePhase2Exclusion` over the items. -/
def evaluateItems : List Exclude → (allRulesEvaluable anyDeferRule : Bool) → PhaseExclusionDecision
  | [], allRulesEvaluable, anyDeferRule =>
    if anyDeferRule then .defer else if allRulesEvaluable then .ready else .skip
  | item :: items, allRulesEvaluable, anyDeferRule =>
    if item.deps = [] then evaluateItems items allRulesEvaluable anyDeferRule
    else if item.deps.any fun j => !s.decided j then evaluateItems items false anyDeferRule
    else if item.deps.any fun j => !(isSuccess (s.results j) || isPending (s.results j)) then
      evaluateItems items allRulesEvaluable anyDeferRule
    else
      match item.deps.filter fun j => isPending (s.results j) with
      | [] => .exclude
      | pendingDeps =>
        if pendingDeps.any (referencesBack input i) then
          evaluateItems items allRulesEvaluable anyDeferRule
        else evaluateItems items allRulesEvaluable true

def evaluatePhase2Exclusion : PhaseExclusionDecision :=
  evaluateItems input s i (input.itemsOf i) true false

/-- An item whose listed challenges may all still succeed. -/
def canFailedChallengeStillBeExcluded : Bool :=
  (input.itemsOf i).any fun item =>
    item.deps ≠ [] && item.deps.all fun j => !s.decided j || isSuccess (s.results j)

def anyDecidedFailureIsFinal : Bool :=
  (List.range input.challengeCount).any fun k =>
    s.decided k && isFailure (s.results k) && !canFailedChallengeStillBeExcluded input s k

/-- The result of a challenge is not looked at: all challenges an item lists succeeded, or, for one
that is not pending itself, are pending. -/
def shouldExcludeChallengeSuccess (challengeToExclude : Outcome) : Bool :=
  (input.itemsOf i).any fun item =>
    item.deps ≠ [] && item.deps.all fun j =>
      isSuccess (s.results j) ||
        (isPending (s.results j) && !isPending (some challengeToExclude))

/-! ## The loop -/

def callGetChallenge : Except ExchangeError Outcome :=
  match input.behaviour.getChallenge i with
  | none => .error (.ERR_INVALID_RESULT_FROM_GET_CHALLENGE_FUNCTION (i + 1))
  | some outcome => .ok outcome

/-- One challenge of a pass, and whether it made progress.  When the answers are there, deferring a
challenge again leaves it without a result, which is what excluding it does. -/
def visit : Except ExchangeError (Progress × Bool) :=
  if s.decided i then .ok (s, false)
  else
    match evaluatePhase2Exclusion input s i with
    | .skip => .ok (s, false)
    | .exclude => .ok (s.setDecided i, true)
    | .defer => .ok (s.setDeferred i, true)
    | .ready => (callGetChallenge input i).map fun outcome => (s.setResult i outcome, true)

end Decisions

section Loop

variable (input : Input)

def pass : List Nat → Progress → Except ExchangeError (Progress × Bool)
  | [], s => .ok (s, false)
  | i :: indices, s =>
    match visit input s i with
    | .error e => .error e
    | .ok (s', progress) =>
      match pass indices s' with
      | .error e => .error e
      | .ok (s'', progress') => .ok (s'', progress || progress')

/-- Passes until nothing is undecided.  When a pass makes no progress, the rest is deferred if a
challenge is pending (at the time of the request only) or if the exchange has failed anyway; else
the first undecided challenge is called. -/
def resolve (deferOnPending : Bool) (indices : List Nat) :
    Nat → Progress → Except ExchangeError Progress
  | 0, s => .ok s
  | fuel + 1, s =>
    match pass input indices s with
    | .error e => .error e
    | .ok (s', true) => resolve deferOnPending indices fuel s'
    | .ok (s', false) =>
      match s'.firstUndecided input.challengeCount with
      | none => .ok s'
      | some i =>
        if deferOnPending && (List.range input.challengeCount).any
          fun j => isPending (s'.results j) then
          .ok (s'.deferRemaining input.challengeCount)
        else if anyDecidedFailureIsFinal input s' then
          .ok (s'.deferRemaining input.challengeCount)
        else
          match callGetChallenge input i with
          | .error e => .error e
          | .ok outcome => resolve deferOnPending indices fuel (s'.setResult i outcome)

/-- The challenges excluded for the request are decided. -/
def phase1 : Progress where
  decided i := (input.excludes i).shouldExclude
  deferred _ := false
  results _ := none

def resolveAtRequest : Except ExchangeError Progress :=
  resolve input true (List.range input.challengeCount) (input.challengeCount + 1) (phase1 input)

end Loop

/-! ## Classifying the results -/

structure Aggregate where
  aggregatedComment : Option Fields := none
  aggregatedCommentUpdate : Option Fields := none
  aggregatedReason : Option String := none

def commentUpdateChallengeReservedFieldNames : List String :=
  ["signature", "cid", "upvoteCount", "downvoteCount", "replyCount", "childCount", "number",
    "postNumber", "updatedAt", "lastChildCid", "lastReplyTimestamp", "replies", "edit",
    "protocolVersion"]

def communityAuthorChallengeReservedFieldNames : List String :=
  ["postScore", "replyScore", "banExpiresAt", "firstCommentTimestamp", "lastCommentCid"]

/-- The first field of a name the challenge may not set. -/
def firstReserved (names : List String) (fields : Fields) : Option String :=
  (fields.map Prod.fst).find? fun key => key ∈ names

/-- The key of `commentUpdate.author` a challenge may not set. -/
def validateAuthorExtras (challengeIndex : Nat) (author : Option Json) : Option ExchangeError :=
  match author with
  | none => none
  | some (.obj fields) =>
    match (fields.map Prod.fst).find? fun key => key ≠ "community" with
    | some key =>
      some (.ERR_CHALLENGE_RESULT_OVERRIDES_NON_COMMUNITY_AUTHOR_KEY challengeIndex
        ("author." ++ key))
    | none =>
      match fields.lookup "community" with
      | none => none
      | some (.obj community) =>
        (firstReserved communityAuthorChallengeReservedFieldNames community).map fun key =>
          .ERR_CHALLENGE_RESULT_OVERRIDES_RESERVED_COMMUNITY_AUTHOR_FIELD challengeIndex
            ("author.community." ++ key)
      | some _ =>
        some (.ERR_CHALLENGE_RESULT_OVERRIDES_RESERVED_COMMUNITY_AUTHOR_FIELD challengeIndex
          "author.community")
  | some _ =>
    some (.ERR_CHALLENGE_RESULT_OVERRIDES_NON_COMMUNITY_AUTHOR_KEY challengeIndex "author")

def validateChallengeResultExtras (challengeIndex : Nat) (r : ChallengeResult) :
    Option ExchangeError :=
  match r with
  | .failure _ _ => none
  | .success comment commentUpdate =>
    ((firstReserved commentSignedPropertyNames (comment.getD [])).map fun key =>
      .ERR_CHALLENGE_RESULT_OVERRIDES_COMMENT_SIGNED_FIELD challengeIndex key).or
    (((firstReserved commentUpdateChallengeReservedFieldNames (commentUpdate.getD [])).map fun key =>
      .ERR_CHALLENGE_RESULT_OVERRIDES_RESERVED_COMMENT_UPDATE_FIELD challengeIndex key).or
    (validateAuthorExtras challengeIndex ((commentUpdate.getD []).lookup "author")))

/-- What a result adds to the aggregate once its extras are valid. -/
def accumulateChallengeResultExtras (r : ChallengeResult) (agg : Aggregate) : Aggregate :=
  match r with
  | .failure _ reason =>
    match Validation.present reason with
    | none => agg
    | some reason => { agg with aggregatedReason := some reason }
  | .success comment commentUpdate =>
    { agg with
      aggregatedComment :=
        match comment with
        | none => agg.aggregatedComment
        | some fields => some (spread (agg.aggregatedComment.getD []) fields)
      aggregatedCommentUpdate :=
        match commentUpdate with
        | none => agg.aggregatedCommentUpdate
        | some fields => some (spread (agg.aggregatedCommentUpdate.getD []) fields) }

structure Classification where
  challengeErrors : List (Nat × String) := []
  pendingChallenges : List (Nat × Challenge) := []
  pendingApprovalSuccess : Bool := false
  agg : Aggregate := {}

section Classify

variable (input : Input) (s : Progress)

def classifyIndex (i : Nat) (c : Classification) : Except ExchangeError Classification :=
  match s.results i with
  | none => .ok c
  | some outcome =>
    if shouldExcludeChallengeSuccess input s i outcome then .ok c
    else
      match outcome with
      | .pending challenge =>
        .ok { c with pendingChallenges := c.pendingChallenges ++ [(i, challenge)] }
      | .result r =>
        match validateChallengeResultExtras i r with
        | some e => .error e
        | none =>
          match r with
          | .failure error _ =>
            .ok { c with
              challengeErrors := c.challengeErrors ++ [(i, error)]
              agg := accumulateChallengeResultExtras r c.agg }
          | .success _ _ =>
            .ok { c with
              pendingApprovalSuccess := c.pendingApprovalSuccess || input.pendingApproval i
              agg := accumulateChallengeResultExtras r c.agg }

/-- The classification of both functions; the one at the time of the answers has no use for the
challenges that are still pending. -/
def classify : List Nat → Classification → Except ExchangeError Classification
  | [], c => .ok c
  | i :: indices, c =>
    match classifyIndex input s i c with
    | .error e => .error e
    | .ok c' => classify indices c'

end Classify

/-! ## The exchange -/

/-- The verification a classification without a pending challenge is turned into. -/
inductive Verification
  | success (pendingApprovalSuccess : Bool) (agg : Aggregate)
  | failure (challengeErrors : List (Nat × String)) (aggregatedReason : Option String)

inductive PendingOrVerification
  | verification (v : Verification)
  | pending (pendingChallenges : List (Nat × Challenge)) (pendingApprovalSuccess : Bool)
      (deferredChallenges : List Nat) (partialResults : Results)

def Classification.verification (c : Classification) : Verification :=
  if c.challengeErrors ≠ [] then .failure c.challengeErrors c.agg.aggregatedReason
  else .success c.pendingApprovalSuccess { c.agg with aggregatedReason := none }

section Exchange

variable (input : Input)

/-- Second, the progress the verification was read off, which the function keeps for itself. -/
def getPendingChallengesOrChallengeVerification :
    Except ExchangeError (PendingOrVerification × Progress) :=
  match input.challenges with
  | none => .ok (.verification (.success false {}), phase1 input)
  | some _ =>
    match resolveAtRequest input with
    | .error e => .error e
    | .ok s =>
      match classify input s (List.range input.challengeCount) {} with
      | .error e => .error e
      | .ok c =>
        if c.challengeErrors = [] ∧ c.pendingChallenges ≠ [] then
          .ok (.pending c.pendingChallenges c.pendingApprovalSuccess
            ((List.range input.challengeCount).filter s.deferred) s.results, s)
        else .ok (.verification c.verification, s)

/-- Every pending challenge verifies the answer in its place. -/
def verifyAnswers : List (Nat × Challenge) → List String → Results → Except ExchangeError Results
  | [], _, results => .ok results
  | (i, _) :: pendingChallenges, challengeAnswers, results =>
    match input.behaviour.verify i challengeAnswers.head? with
    | none => .error (.verifyFailed i)
    | some r =>
      verifyAnswers pendingChallenges challengeAnswers.tail
        (Function.update results i (some (.result r)))

/-- Everything is decided but the deferred challenges. -/
def answeredProgress (deferredChallenges : List Nat) (results : Results) : Progress where
  decided i := i < input.challengeCount && i ∉ deferredChallenges
  deferred i := i ∈ deferredChallenges
  results := results

def getChallengeVerificationFromChallengeAnswers (pendingChallenges : List (Nat × Challenge))
    (challengeAnswers : List String) (deferredChallenges : List Nat) (partialResults : Results) :
    Except ExchangeError (Verification × Progress) :=
  match verifyAnswers input pendingChallenges challengeAnswers partialResults with
  | .error e => .error e
  | .ok results =>
    match resolve input false deferredChallenges (input.challengeCount + 1)
        (answeredProgress input deferredChallenges results) with
    | .error e => .error e
    | .ok s =>
      match classify input s (List.range input.challengeCount) {} with
      | .error e => .error e
      | .ok c => .ok (c.verification, s)

/-- A reason a publisher is given: a challenge's own, or that a name could not be verified. -/
inductive Reason
  | text (reason : String)
  | nameFailure (reason : Message)
deriving DecidableEq, Repr

structure Ended where
  challengeSuccess : Bool
  challengeErrors : List (Nat × String)
  aggregatedComment : Option Fields
  aggregatedCommentUpdate : Option Fields
  aggregatedReason : Option Reason
  pendingApproval : Bool
  /-- `addToRateLimiter`: the limiters a token is taken from. -/
  rateLimiters : List RateLimiterName
  /-- The progress the verification was read off. -/
  final : Progress

/-- The name that could not be verified would have excluded every challenge that failed. -/
def decisiveNameFailure (challengeErrors : List (Nat × String)) : Option Message :=
  match challengeErrors with
  | [] => none
  | (i, _) :: _ =>
    if challengeErrors.all fun error => (input.excludes error.1).nameFailure.isSome then
      (input.excludes i).nameFailure
    else none

def getRateLimitersToAddTo (challengeSuccess : Bool) : List RateLimiterName :=
  (((input.settings.flatMap CommunityChallenge.items).filterMap Exclude.rateLimit).map fun limit =>
    rateLimiterName input.request limit challengeSuccess).dedup

def isComment (request : ChallengeRequest) : Bool :=
  match request.publication.body with
  | .comment _ => true
  | _ => false

/-- What the caller is told, with the approvals the first verification asked for. -/
def finish (pendingApprovalSuccess : Bool) (v : Verification) (s : Progress) : Ended :=
  match v with
  | .success pendingApprovalSuccess' agg =>
    { challengeSuccess := true
      challengeErrors := []
      aggregatedComment := agg.aggregatedComment
      aggregatedCommentUpdate := agg.aggregatedCommentUpdate
      aggregatedReason := none
      pendingApproval :=
        isComment input.request && (pendingApprovalSuccess || pendingApprovalSuccess')
      rateLimiters := getRateLimitersToAddTo input true
      final := s }
  | .failure challengeErrors aggregatedReason =>
    { challengeSuccess := false
      challengeErrors := challengeErrors
      aggregatedComment := none
      aggregatedCommentUpdate := none
      aggregatedReason :=
        match decisiveNameFailure input challengeErrors with
        | some reason => some (.nameFailure reason)
        | none => aggregatedReason.map .text
      pendingApproval := false
      rateLimiters := getRateLimitersToAddTo input false
      final := s }

def getChallengeVerification : Except ExchangeError Ended :=
  match input.challenges with
  | none => .error .challengesNotDefined
  | some _ =>
    match getPendingChallengesOrChallengeVerification input with
    | .error e => .error e
    | .ok (.verification v, s) => .ok (finish input false v s)
    | .ok (.pending pendingChallenges pendingApprovalSuccess deferredChallenges partialResults, _) =>
      match input.behaviour.getChallengeAnswers (pendingChallenges.map Prod.snd) with
      | none => .error .noChallengeAnswers
      | some challengeAnswers =>
        match getChallengeVerificationFromChallengeAnswers input pendingChallenges challengeAnswers
            deferredChallenges partialResults with
        | .error e => .error e
        | .ok (v, s) => .ok (finish input pendingApprovalSuccess v s)

end Exchange

end Challenges
end Pkc

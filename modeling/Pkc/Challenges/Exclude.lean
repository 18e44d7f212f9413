import Pkc.Publications.Validation

/-!
# Excludes

A challenge of a community has a list of exclude items.  An item is a record of optional
conditions on the request, on a comment of the author in another community and on the results of
other challenges; three functions look at the three kinds, each at a different moment of the
exchange.

* `shouldExcludePublication` reads the conditions on the request and its author.
* `shouldExcludeChallengeCommentCids` reads `community`, with the comments the request names.
* `shouldExcludeChallengeSuccess` reads `challenges`, with the results the exchange has so far.

`Env` is what they ask of the node: the name resolver and the clock of `Validation.Env`, the
counts in the database, the rate limiters and the comments of other communities.
-/

set_option autoImplicit false

namespace Pkc
namespace Challenges

open Json
open Validation (IdentityMatchOutcome Message Role present)

/-! ## The settings of a challenge -/

/-- The types an item excludes; an absent switch is off. -/
structure ExcludePublicationType where
  post : Bool := false
  reply : Bool := false
  vote : Bool := false
  commentEdit : Bool := false
  commentModeration : Bool := false
  communityEdit : Bool := false

structure ExcludeCommunity where
  addresses : List String
  maxCommentCids : Nat
  postScore : Option Rat := none
  replyScore : Option Rat := none
  firstCommentTimestamp : Option Int := none

/-- `ChallengeExcludeSchema`: one item of an exclude list. -/
structure Exclude where
  community : Option ExcludeCommunity := none
  postScore : Option Rat := none
  replyScore : Option Rat := none
  postCount : Option Nat := none
  replyCount : Option Nat := none
  firstCommentTimestamp : Option Int := none
  challenges : Option (List Nat) := none
  roles : Option (List Role) := none
  publicKeys : Option (List String) := none
  names : Option (List String) := none
  rateLimit : Option Nat := none
  rateLimitChallengeSuccess : Option Bool := none
  publicationType : Option ExcludePublicationType := none

structure CommunityChallenge where
  exclude : Option (List Exclude) := none
  pendingApproval : Option Bool := none

/-- `exclude.challenges`, with an absent list like an empty one. -/
def Exclude.deps (item : Exclude) : List Nat := item.challenges.getD []

/-- `communityChallenge.exclude`, with an absent list like an empty one. -/
def CommunityChallenge.items (c : CommunityChallenge) : List Exclude := c.exclude.getD []

/-! ## The request -/

/-- `author.community`: what a community knows about an author. -/
structure AuthorCommunity where
  postScore : Rat
  replyScore : Rat
  firstCommentTimestamp : Int

structure ChallengeRequest where
  publication : Validation.Request
  /-- `author.community` and `author.address` of the publication, which the node fills in. -/
  authorCommunity : Option AuthorCommunity
  authorAddress : String
  challengeCommentCids : List Cid

inductive PublicationType
  | post | reply | vote | commentEdit | commentModeration | communityEdit
deriving DecidableEq, Repr

def getPublicationType (request : ChallengeRequest) : PublicationType :=
  match request.publication.body with
  | .comment c => if (present c.parentCid).isSome then .reply else .post
  | .vote _ _ => .vote
  | .commentEdit _ => .commentEdit
  | .commentModeration _ => .commentModeration
  | .communityEdit _ => .communityEdit

/-- The switch of a type. -/
def ExcludePublicationType.includes (types : ExcludePublicationType) : PublicationType → Bool
  | .post => types.post
  | .reply => types.reply
  | .vote => types.vote
  | .commentEdit => types.commentEdit
  | .commentModeration => types.commentModeration
  | .communityEdit => types.communityEdit

/-- A comment of another community, as `pkc.getComment` and its update give it. -/
structure LoadedComment where
  communityAddress : String
  authorPublicKey : String
  authorCommunity : Option AuthorCommunity

structure AuthorPublicationCounts where
  postCount : Nat
  replyCount : Nat

/-- The name of a rate limiter: one for each author, limit, type and outcome. -/
structure RateLimiterName where
  authorAddress : String
  rateLimit : Nat
  publicationType : PublicationType
  challengeSuccess : Bool
deriving DecidableEq, Repr

structure Env extends Validation.Env where
  queryAuthorPublicationCounts : String → AuthorPublicationCounts
  /-- The tokens left in a limiter of the package; one that does not exist is created full. -/
  getTokensRemaining : RateLimiterName → Rat
  /-- `none` for a comment that cannot be loaded. -/
  getComment : Cid → Option LoadedComment

section Tests

variable (env : Env) (community : Validation.Community) (request : ChallengeRequest)

/-! ## The conditions on the request -/

def testScore (excludeScore authorScore : Option Rat) : Bool :=
  match excludeScore with
  | none => true
  | some score => score ≤ authorScore.getD 0

/-- An author whose first comment is unknown is younger than any age. -/
def testFirstCommentTimestamp (excludeTime authorFirstCommentTimestamp : Option Int) : Bool :=
  match excludeTime with
  | none => true
  | some age =>
    match authorFirstCommentTimestamp.filter fun first => first ≠ 0 with
    | none => false
    | some first => first ≤ env.timestamp - age

def testPublicationType (excludePublicationType : Option ExcludePublicationType) : Bool :=
  match excludePublicationType with
  | none => true
  | some types => types.includes (getPublicationType request)

/-- The limiter of the request under a limit; without `rateLimitChallengeSuccess` it is the one of
the requests that succeeded. -/
def rateLimiterName (rateLimit : Nat) (challengeSuccess : Bool) : RateLimiterName where
  authorAddress := request.authorAddress
  rateLimit := rateLimit
  publicationType := getPublicationType request
  challengeSuccess := challengeSuccess

def testRateLimit (exclude : Exclude) : Bool :=
  match exclude.rateLimit with
  | none => true
  | some rateLimit =>
    if testPublicationType request exclude.publicationType = false then true
    else decide (1 ≤ env.getTokensRemaining
      (rateLimiterName request rateLimit (exclude.rateLimitChallengeSuccess ≠ some false)))

/-- The address of the key the publication is signed with. -/
def signerAddress : String := env.addressOfPublicKey request.publication.signature.publicKey

/-- An item sets a condition on the request. -/
def Exclude.hasRequestCondition (exclude : Exclude) : Bool :=
  exclude.postScore.isSome || exclude.replyScore.isSome || exclude.postCount.isSome ||
    exclude.replyCount.isSome || exclude.firstCommentTimestamp.isSome ||
    exclude.publicKeys.getD [] ≠ [] || exclude.names.getD [] ≠ [] ||
    exclude.publicationType.isSome || exclude.rateLimit.isSome || exclude.roles.getD [] ≠ []

/-- The tests that need no network. -/
def testsCheapConditions (exclude : Exclude) : Bool :=
  let counts := env.queryAuthorPublicationCounts (signerAddress env request)
  testScore exclude.postScore (request.authorCommunity.map AuthorCommunity.postScore) &&
    testScore exclude.replyScore (request.authorCommunity.map AuthorCommunity.replyScore) &&
    testFirstCommentTimestamp env exclude.firstCommentTimestamp
      (request.authorCommunity.map AuthorCommunity.firstCommentTimestamp) &&
    testPublicationType request exclude.publicationType &&
    testRateLimit env request exclude &&
    exclude.publicKeys.all (fun keys => signerAddress env request ∈ keys) &&
    testScore (exclude.postCount.map fun n : Nat => (n : Rat)) (some counts.postCount) &&
    testScore (exclude.replyCount.map fun n : Nat => (n : Rat)) (some counts.replyCount)

def testNames (exclude : Exclude) : IdentityMatchOutcome :=
  match exclude.names with
  | none => .matched
  | some names =>
    Validation.matchesAnyIdentity env.toEnv request.publication.toPublication names

/-- `testRole`: the roles the author holds in this community. -/
def testRoles (exclude : Exclude) : IdentityMatchOutcome :=
  match exclude.roles with
  | none => .matched
  | some roles =>
    Validation.matchPublicationAuthorAgainstRoles env.toEnv community
      request.publication.toPublication roles

structure ShouldExcludeResult where
  shouldExclude : Bool
  nameFailure : Option Message
deriving DecidableEq, Repr

/-- The names are only resolved, and the failure to resolve one is only kept, for an item whose
other conditions are met. -/
def testItem (exclude : Exclude) : ShouldExcludeResult :=
  if exclude.hasRequestCondition = false then ⟨false, none⟩
  else if testsCheapConditions env request exclude = false then ⟨false, none⟩
  else
    match testNames env request exclude with
    | .unmatched nameFailure => ⟨false, nameFailure⟩
    | .matched =>
      match testRoles env community request exclude with
      | .unmatched nameFailure => ⟨false, nameFailure⟩
      | .matched => ⟨true, none⟩

/-- The first item that is met excludes; of the failures before it only the first is reported. -/
def shouldExcludePublication : List Exclude → Option Message → ShouldExcludeResult
  | [], nameFailure => ⟨false, nameFailure⟩
  | item :: items, nameFailure =>
    if (testItem env community request item).shouldExclude then ⟨true, none⟩
    else shouldExcludePublication items
      (nameFailure.or (testItem env community request item).nameFailure)

/-! ## The condition on a comment of another community -/

/-- `validateComment` resolves.  For a comment whose update says nothing of the author nothing is
cached, so that there is no timeout to `unref`, and `_getComment` throws. -/
def validateComment (exclude : ExcludeCommunity) (cid : Cid) : Bool :=
  match env.getComment cid with
  | none => false
  | some comment =>
    comment.communityAddress ∈ exclude.addresses &&
      comment.authorPublicKey = signerAddress env request &&
      comment.authorCommunity.isSome &&
      testScore exclude.postScore (comment.authorCommunity.map AuthorCommunity.postScore) &&
      testScore exclude.replyScore (comment.authorCommunity.map AuthorCommunity.replyScore) &&
      testFirstCommentTimestamp env exclude.firstCommentTimestamp
        (comment.authorCommunity.map AuthorCommunity.firstCommentTimestamp)

/-- The cids of the request that are looked at; `0` stands for the default, too. -/
def candidateCids (exclude : ExcludeCommunity) : List Cid :=
  (request.challengeCommentCids.take
    (if exclude.maxCommentCids = 0 then 3 else exclude.maxCommentCids)).filter fun cid => cid ≠ ""

/-- `validateExclude` resolves: one of the comments is valid. -/
def validateExclude (exclude : Exclude) : Bool :=
  match exclude.community with
  | none => false
  | some community =>
    community.addresses ≠ [] &&
      (candidateCids request community).any (validateComment env request community)

def shouldExcludeChallengeCommentCids (c : CommunityChallenge) : Bool :=
  c.items.any (validateExclude env request)

/-! ## The first phase of the exchange -/

/-- A challenge is excluded by the request or by a comment.  Only for one that is still required
the failure to verify a name is kept. -/
def requestExcludes (c : CommunityChallenge) : ShouldExcludeResult :=
  let excludeResult := shouldExcludePublication env community request c.items none
  if excludeResult.shouldExclude then ⟨true, none⟩
  else if shouldExcludeChallengeCommentCids env request c then ⟨true, none⟩
  else ⟨false, excludeResult.nameFailure⟩

end Tests

end Challenges
end Pkc

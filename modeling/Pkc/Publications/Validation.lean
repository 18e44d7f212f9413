import Pkc.Library.Json
import Pkc.Publish.Tables

/-!
# Validating a publication

`checkPublicationValidity` decides whether a publication of a challenge request may enter the
challenge exchange.  It runs a fixed list of checks and returns the message of the first one that
refuses, or nothing.

* A `Request` carries exactly one publication.  `Publication` has the fields every publication has
  and `Body` those of its type; a field the schema does not name is kept with the value the author
  signed, in `extra`.
* `Rules` is a list of refusals, tried in order.  The checks that read no other record than the
  one they are given are such lists.
* `TypeError` is a property read off an undefined value: the check throws instead of answering.
* `Env` is what the checks ask of code they only call: the clock, the name resolver, and the
  predicates on links and on markdown.
-/

set_option autoImplicit false

namespace Pkc
namespace Validation

open Json

/-- The reasons of a refusal, under their names in the table of messages. -/
inductive Message
  | ERR_PUBLICATION_USES_DEPRECATED_SUBPLEBBIT_ADDRESS
  | ERR_PUBLICATION_USES_DEPRECATED_COMMUNITY_ADDRESS
  | ERR_PUBLICATION_HAS_MALFORMED_UNICODE_STRING
  | ERR_PUBLICATION_SIGNED_TO_MINTER_INSTEAD_OF_ANCHOR
  | ERR_PUBLICATION_INVALID_COMMUNITY_PUBLIC_KEY
  | ERR_PUBLICATION_INVALID_COMMUNITY_NAME
  | ERR_PUBLICATION_MISSING_COMMUNITY_NAME
  | ERR_PUBLICATION_TIMESTAMP_IS_NOT_IN_PROPER_RANGE
  | ERR_AUTHOR_IS_BANNED
  | ERR_PUBLICATION_AUTHOR_IS_AN_EMPTY_OBJECT
  | ERR_PUBLICATION_AUTHOR_HAS_RESERVED_FIELD
  | ERR_AUTHOR_NAME_MUST_BE_A_DOMAIN
  | ERR_AUTHOR_NAME_HAS_CAPITAL_LETTER
  | ERR_AUTHOR_NAME_HAS_NO_RECORD
  | ERR_COMMUNITY_HAS_NO_RESOLVER_FOR_AUTHOR_NAME_TLD
  | ERR_AUTHOR_NAME_RECORD_IS_NOT_A_VALID_KEY
  | ERR_COMMUNITY_FAILED_TO_RESOLVE_AUTHOR_NAME
  | ERR_AUTHOR_DOMAIN_RESOLVES_TO_DIFFERENT_SIGNER
  | ERR_COMMUNITY_PUBLICATION_PARENT_CID_NOT_DEFINED
  | ERR_PUBLICATION_PARENT_DOES_NOT_EXIST_IN_COMMUNITY
  | ERR_COMMUNITY_PUBLICATION_PARENT_HAS_BEEN_REMOVED
  | ERR_COMMUNITY_PUBLICATION_PARENT_HAS_BEEN_DELETED
  | ERR_COMMUNITY_PUBLICATION_POST_HAS_BEEN_REMOVED
  | ERR_COMMUNITY_PUBLICATION_POST_HAS_BEEN_DELETED
  | ERR_COMMUNITY_PUBLICATION_POST_IS_LOCKED
  | ERR_COMMUNITY_PUBLICATION_POST_IS_ARCHIVED
  | ERR_COMMUNITY_COMMENT_TIMESTAMP_IS_EARLIER_THAN_PARENT
  | ERR_USER_PUBLISHED_UNDER_PENDING_COMMENT
  | ERR_USER_PUBLISHED_UNDER_DISAPPROVED_COMMENT
  | ERR_REQUEST_PUBLICATION_OVER_ALLOWED_SIZE
  | ERR_REPLY_GALLERY_NOT_ALLOWED
  | ERR_POST_GALLERY_NOT_ALLOWED
  | ERR_REPLY_GALLERY_EXCEEDS_MAX_ITEMS
  | ERR_POST_GALLERY_EXCEEDS_MAX_ITEMS
  | ERR_GALLERY_ITEM_NOT_MEDIA
  | ERR_GALLERY_ITEM_HTML_TAG_NAME_MISMATCH
  | ERR_COMMENT_HAS_RESERVED_FIELD
  | ERR_COMMENT_HAS_INVALID_LINK_FIELD
  | ERR_POST_LINK_IS_NOT_OF_MEDIA
  | ERR_REPLY_HAS_INVALID_LINK_FIELD
  | ERR_REPLY_LINK_IS_NOT_OF_MEDIA
  | ERR_COMMENT_CONTENT_CONTAINS_MARKDOWN_IMAGE
  | ERR_COMMENT_CONTENT_CONTAINS_MARKDOWN_VIDEO
  | ERR_COMMENT_CONTENT_CONTAINS_MARKDOWN_AUDIO
  | ERR_COMMENT_HAS_LINK_THAT_IS_IMAGE
  | ERR_COMMENT_HAS_LINK_THAT_IS_VIDEO
  | ERR_COMMENT_HAS_SPOILER_ENABLED
  | ERR_REPLY_HAS_LINK_THAT_IS_IMAGE
  | ERR_REPLY_HAS_LINK_THAT_IS_VIDEO
  | ERR_REPLY_HAS_LINK
  | ERR_COMMENT_HAS_LINK_THAT_IS_AUDIO
  | ERR_REPLY_HAS_LINK_THAT_IS_AUDIO
  | ERR_REPLY_HAS_SPOILER_ENABLED
  | ERR_NESTED_REPLIES_NOT_ALLOWED
  | ERR_POST_FLAIRS_NOT_ALLOWED
  | ERR_POST_FLAIR_NOT_IN_ALLOWED_FLAIRS
  | ERR_POST_FLAIRS_REQUIRED
  | ERR_AUTHOR_FLAIRS_NOT_ALLOWED
  | ERR_AUTHOR_FLAIR_NOT_IN_ALLOWED_FLAIRS
  | ERR_AUTHOR_FLAIRS_REQUIRED
  | ERR_REPLY_HAS_NOT_DEFINED_POST_CID
  | ERR_REPLY_POST_CID_IS_NOT_PARENT_OF_REPLY
  | ERR_NOT_ALLOWED_TO_PUBLISH_CROSSPOSTS
  | ERR_CROSSPOST_CHAIN_EXCEEDS_COMMUNITY_MAX_DEPTH
  | ERR_POST_CANNOT_HAVE_QUOTED_CIDS
  | ERR_QUOTED_CID_DOES_NOT_EXIST
  | ERR_QUOTED_CID_NOT_UNDER_POST
  | ERR_QUOTED_CID_IS_PENDING_APPROVAL
  | ERR_DUPLICATE_COMMENT
  | ERR_VOTE_HAS_RESERVED_FIELD
  | ERR_NOT_ALLOWED_TO_PUBLISH_UPVOTES
  | ERR_NOT_ALLOWED_TO_PUBLISH_DOWNVOTES
  | ERR_NOT_ALLOWED_TO_PUBLISH_POST_DOWNVOTES
  | ERR_NOT_ALLOWED_TO_PUBLISH_POST_UPVOTES
  | ERR_NOT_ALLOWED_TO_PUBLISH_REPLY_DOWNVOTES
  | ERR_NOT_ALLOWED_TO_PUBLISH_REPLY_UPVOTES
  | ERR_THERE_IS_NO_PREVIOUS_VOTE_TO_CANCEL
  | ERR_COMMENT_MODERATION_HAS_RESERVED_FIELD
  | ERR_COMMENT_MODERATION_ATTEMPTED_WITHOUT_BEING_MODERATOR
  | ERR_COMMENT_MODERATION_NO_COMMENT_TO_EDIT
  | ERR_COMMUNITY_COMMENT_MOD_CAN_NOT_LOCK_REPLY
  | ERR_NOT_ALLOWED_TO_ARCHIVE_POSTS
  | ERR_COMMUNITY_COMMENT_MOD_CAN_NOT_ARCHIVE_REPLY
  | ERR_DUPLICATE_COMMENT_MODERATION
  | ERR_MOD_ATTEMPTING_TO_APPROVE_OR_DISAPPROVE_COMMENT_THAT_IS_NOT_PENDING
  | ERR_COMMUNITY_EDIT_HAS_RESERVED_FIELD
  | ERR_COMMUNITY_EDIT_ATTEMPTED_TO_MODIFY_OWNER_EXCLUSIVE_PROPS
  | ERR_COMMUNITY_EDIT_ATTEMPTED_TO_MODIFY_COMMUNITY_WITHOUT_BEING_OWNER_OR_ADMIN
  | ERR_COMMUNITY_EDIT_ATTEMPTED_TO_NON_PUBLIC_PROPS
  | ERR_COMMENT_EDIT_HAS_RESERVED_FIELD
  | ERR_COMMENT_EDIT_NO_COMMENT_TO_EDIT
  | ERR_DUPLICATE_COMMENT_EDIT
  | ERR_COMMENT_EDIT_CAN_NOT_EDIT_COMMENT_IF_NOT_ORIGINAL_AUTHOR
  | ERR_SIGNATURE_IS_INVALID
  | ERR_COMMENT_PUBSUB_RECORD_INCLUDES_FIELD_NOT_IN_SIGNED_PROPERTY_NAMES
  | ERR_CROSSPOST_CHAIN_EXCEEDS_MAX_DEPTH
  | ERR_CROSSPOST_CID_DOES_NOT_MATCH_EMBEDDED_COMMENT
  | ERR_CROSSPOST_COMMENT_INCLUDES_RESERVED_FIELD
  | ERR_CROSSPOST_COMMENT_AUTHOR_INCLUDES_RESERVED_FIELD
  | ERR_CROSSPOST_COMMENT_INCLUDES_SIGNABLE_FIELD_NOT_IN_SIGNED_PROPERTY_NAMES
  | ERR_CROSSPOST_COMMENT_SIGNATURE_IS_INVALID
  | ERR_COMMENT_IPFS_COMMUNITY_NAME_MISMATCH
  | ERR_COMMENT_IPFS_RECORD_INCLUDES_RESERVED_FIELD
  | ERR_COMMENT_IPFS_AUTHOR_INCLUDES_RESERVED_FIELD
  | ERR_COMMENT_IPFS_RECORD_INCLUDES_SIGNABLE_FIELD_NOT_IN_SIGNED_PROPERTY_NAMES
  | ERR_COMMUNITY_RECORD_INCLUDES_FIELD_NOT_IN_SIGNED_PROPERTY_NAMES
  | ERR_COMMUNITY_RECORD_INCLUDES_RESERVED_FIELD
  | ERR_COMMUNITY_RECORD_ANCHOR_CLAIM_DOES_NOT_MATCH_CHAIN_ANCHOR
  | ERR_COMMUNITY_SIGNATURE_IS_INVALID
  | ERR_COMMUNITY_POSTS_INVALID
  | ERR_COMMUNITY_IPNS_NAME_DOES_NOT_MATCH_SIGNATURE_PUBLIC_KEY
  | ERR_COMMUNITY_ENCRYPTION_PUBLIC_KEY_DOES_NOT_MATCH_SIGNATURE_PUBLIC_KEY
  | ERR_COMMENT_UPDATE_RECORD_INCLUDES_FIELD_NOT_IN_SIGNED_PROPERTY_NAMES
  | ERR_COMMENT_UPDATE_RECORD_INCLUDES_RESERVED_FIELD
  | ERR_COMMENT_UPDATE_DIFFERENT_CID_THAN_COMMENT
  | ERR_AUTHOR_EDIT_IS_NOT_SIGNED_BY_AUTHOR
  | ERR_COMMENT_UPDATE_EDIT_IS_FOR_A_DIFFERENT_COMMENT
  | ERR_COMMENT_UPDATE_EDIT_INCLUDES_FIELD_NOT_IN_SIGNED_PROPERTY_NAMES
  | ERR_COMMENT_UPDATE_EDIT_SIGNATURE_IS_INVALID
  | ERR_COMMENT_UPDATE_IS_NOT_SIGNED_BY_COMMUNITY
  | ERR_PAGE_COMMENT_POST_HAS_POST_CID_DEFINED_WITH_DEPTH_0
  | ERR_PARENT_CID_OF_COMMENT_IN_PAGE_IS_NOT_CORRECT
  | ERR_PAGE_COMMENT_IS_A_REPLY_BUT_HAS_NO_PARENT_COMMENT_INSTANCE
  | ERR_PAGE_COMMENT_DEPTH_VALUE_IS_NOT_RELATIVE_TO_ITS_PARENT
  | ERR_PAGE_COMMENT_POST_CID_IS_NOT_SAME_AS_POST_CID_OF_COMMENT_INSTANCE
  | ERR_COMMENT_IN_PAGE_BELONG_TO_DIFFERENT_COMMUNITY
  | ERR_PAGE_COMMENT_NO_WAY_TO_DERIVE_POST_CID
deriving DecidableEq, Repr

inductive TypeError
  | propertyOfUndefined
deriving DecidableEq, Repr

/-- Refusals in the order they are tried. -/
abbrev Rules := List (Bool × Message)

/-- The first rule that applies. -/
def Rules.refusal (rules : Rules) : Option Message :=
  (rules.find? fun rule => rule.1).map Prod.snd

/-- No rule applies. -/
def Rules.Passes (rules : Rules) : Prop := ∀ rule ∈ rules, rule.1 = false

theorem Rules.refusal_eq_none {rules : Rules} : rules.refusal = none ↔ rules.Passes := by
  simp [Rules.refusal, Rules.Passes]

theorem Rules.refusal_isSome {rules : Rules} : rules.refusal.isSome = true ↔ ¬ rules.Passes := by
  rw [← Rules.refusal_eq_none, Option.isSome_iff_ne_none]

/-! ## Publications -/

structure Signature where
  publicKey : String
  /-- The signature itself, base64-encoded. -/
  signature : String
deriving DecidableEq, Repr

/-- The fields every publication has, and those the schema of its type does not name. -/
structure Publication where
  author : Option Fields
  communityPublicKey : Option String
  communityName : Option String
  timestamp : Int
  signature : Signature
  extra : Fields

structure GalleryItem where
  url : String
  htmlTagName : String
deriving DecidableEq, Repr

/-- The fields of a comment the checks read. -/
structure CommentFields where
  parentCid : Option Cid
  postCid : Option Cid
  link : Option String
  content : Option String
  gallery : Option (List GalleryItem)
  spoiler : Option Bool
  flairs : Option (List Json)
  quotedCids : Option (List Cid)
  crosspost : Option Json

inductive VoteValue
  | up | cancel | down
deriving DecidableEq, Repr

structure CommentEditFields where
  commentCid : Cid
  content : Option String
  deleted : Option Bool
  spoiler : Option Bool
  flairs : Option (List Json)

structure CommentModerationFields where
  commentCid : Cid
  locked : Option Bool
  archived : Option Bool
  approved : Option Bool

inductive Body
  | comment (c : CommentFields)
  | vote (commentCid : Cid) (vote : VoteValue)
  | commentEdit (e : CommentEditFields)
  | commentModeration (m : CommentModerationFields)
  | communityEdit (edit : Fields)

structure Request extends Publication where
  body : Body

/-- A string that is given and not empty. -/
def present (s : Option String) : Option String := s.filter fun s => s ≠ ""

namespace Request

/-- `publication.parentCid`: a field of a comment, and no field of any other type. -/
def parentCid (r : Request) : Option Json :=
  match r.body with
  | .comment c => c.parentCid.map .str
  | _ => r.extra.lookup "parentCid"

/-- `publication.commentCid`. -/
def commentCid (r : Request) : Option Json :=
  match r.body with
  | .vote commentCid _ => some (.str commentCid)
  | .commentEdit e => some (.str e.commentCid)
  | .commentModeration m => some (.str m.commentCid)
  | .comment _ | .communityEdit _ => r.extra.lookup "commentCid"

def isCommentModeration (r : Request) : Bool :=
  match r.body with
  | .commentModeration _ => true
  | _ => false

def isVote (r : Request) : Bool :=
  match r.body with
  | .vote _ _ => true
  | _ => false

/-- An edit with which the author deletes the comment. -/
def isDeletingEdit (r : Request) : Bool :=
  match r.body with
  | .commentEdit e => e.deleted = some true
  | _ => false

/-- One of the names is a field of the publication.  No reserved name is one of the schema's. -/
def hasField (r : Request) (names : List String) : Bool := r.extra.any fun field => field.1 ∈ names

end Request

/-! ## The community and its database -/

structure CommentsTableRow extends CommentRow where
  postCid : Cid
  timestamp : Int
  signature : Signature
  originalCommentSignatureEncoded : Option String

/-- A row of `commentModerations`; a flag the moderation does not set is `none`. -/
structure CommentModerationRow where
  commentCid : Cid
  locked : Option Bool
  archived : Option Bool
  removed : Option Bool
  approved : Option Bool
  signatureEncoded : String

structure CommentEditRow where
  commentCid : Cid
  isAuthorEdit : Bool
  deleted : Option Bool
  signatureEncoded : String

structure VoteRow where
  commentCid : Cid
  authorSignerAddress : String

structure PseudonymityAliasRow where
  commentCid : Cid
  originalAuthorPublicKey : String

/-- The tables, each in `rowid` order. -/
structure Db where
  comments : List CommentsTableRow
  commentModerations : List CommentModerationRow
  commentEdits : List CommentEditRow
  votes : List VoteRow
  pseudonymityAliases : List PseudonymityAliasRow

namespace Db

def queryComment (db : Db) (cid : Cid) : Option CommentsTableRow :=
  db.comments.find? fun row => row.cid == cid

/-- The flag as the last moderation that sets it has it. -/
def queryCommentFlagSetByMod (db : Db) (flag : CommentModerationRow → Option Bool) (cid : Cid) :
    Option Bool :=
  ((db.commentModerations.filter fun row => row.commentCid = cid).filterMap flag).getLast?

/-- What the author's last edit that says so says about the deletion of the comment. -/
def queryAuthorEditDeleted (db : Db) (cid : Cid) : Option Bool :=
  ((db.commentEdits.filter fun row => row.commentCid = cid ∧ row.isAuthorEdit = true).filterMap
    CommentEditRow.deleted).getLast?

def queryIsCommentApproved (db : Db) (cid : Cid) : Option Bool :=
  db.queryCommentFlagSetByMod CommentModerationRow.approved cid

/-- The chain of comments from `parentCid` up to its post. -/
def queryParentsCids (db : Db) (parentCid : Cid) : List Cid :=
  Tables.queryParentsCids ⟨db.comments.map CommentsTableRow.toCommentRow, [], [], []⟩
    db.comments.length parentCid

def queryVote (db : Db) (commentCid : Cid) (authorSignerAddress : String) : Option VoteRow :=
  db.votes.find? fun row =>
    row.commentCid = commentCid ∧ row.authorSignerAddress = authorSignerAddress

def queryPseudonymityAliasByCommentCid (db : Db) (commentCid : Cid) :
    Option PseudonymityAliasRow :=
  db.pseudonymityAliases.find? fun row => row.commentCid = commentCid

def hasCommentWithSignatureEncoded (db : Db) (signatureEncoded : String) : Bool :=
  db.comments.any fun row =>
    row.signature.signature = signatureEncoded ∨
      row.originalCommentSignatureEncoded = some signatureEncoded

def hasCommentEditWithSignatureEncoded (db : Db) (signatureEncoded : String) : Bool :=
  db.commentEdits.any fun row => row.signatureEncoded = signatureEncoded

def hasCommentModerationWithSignatureEncoded (db : Db) (signatureEncoded : String) : Bool :=
  db.commentModerations.any fun row => row.signatureEncoded = signatureEncoded

end Db

/-- `community.features`; an absent switch is off. -/
structure Features where
  noVideos : Bool := false
  noSpoilers : Bool := false
  noImages : Bool := false
  noVideoReplies : Bool := false
  noSpoilerReplies : Bool := false
  noImageReplies : Bool := false
  noReplyLinks : Bool := false
  noCrossposts : Bool := false
  maxCrosspostDepth : Option Nat := none
  noNestedReplies : Bool := false
  noArchive : Bool := false
  authorFlairs : Bool := false
  requireAuthorFlairs : Bool := false
  postFlairs : Bool := false
  requirePostFlairs : Bool := false
  noMarkdownImages : Bool := false
  noMarkdownVideos : Bool := false
  noMarkdownAudio : Bool := false
  noAudio : Bool := false
  noAudioReplies : Bool := false
  noPostUpvotes : Bool := false
  noReplyUpvotes : Bool := false
  noPostDownvotes : Bool := false
  noReplyDownvotes : Bool := false
  noUpvotes : Bool := false
  noDownvotes : Bool := false
  requirePostLink : Bool := false
  requirePostLinkIsMedia : Bool := false
  requireReplyLink : Bool := false
  requireReplyLinkIsMedia : Bool := false
  maxPostGalleryItems : Option Nat := none
  maxReplyGalleryItems : Option Nat := none
  /-- Whether a `pseudonymityMode` is set. -/
  pseudonymityMode : Bool := false

inductive Role
  | owner | admin | moderator
deriving DecidableEq, Repr

structure Community where
  /-- The key of the anchor of a delegated community. -/
  anchorPublicKey : Option String
  signerAddress : String
  address : String
  /-- Each role key, an address or a domain, with its role. -/
  roles : List (String × Role)
  features : Features
  /-- The flairs an author may choose for a comment and for themself. -/
  postFlairs : List Json
  authorFlairs : List Json
  /-- `pkc.resolveAuthorNames`. -/
  resolveAuthorNames : Bool
  db : Db

/-- What became of resolving a name. -/
inductive Resolution
  | resolved (address : String)
  | noRecord
  /-- With the reason a publisher is given. -/
  | failed (reason : Message)
deriving DecidableEq, Repr

structure Env where
  timestamp : Int
  addressOfPublicKey : String → String
  /-- The name resolver with a cache, and without one. -/
  resolveAuthorNameCached : String → Resolution
  resolveAuthorName : String → Resolution
  toLowerCase : String → String
  hasMalformedUnicodeString : Request → Bool
  /-- The length of the JSON text of the publication, in bytes. -/
  byteLength : Request → Nat
  isLinkValid : String → Bool
  isLinkOfMedia : String → Bool
  isLinkOfImage : String → Bool
  isLinkOfVideo : String → Bool
  isLinkOfAnimatedImage : String → Bool
  isLinkOfAudio : String → Bool
  contentContainsMarkdownImages : String → Bool
  contentContainsMarkdownVideos : String → Bool
  contentContainsMarkdownAudio : String → Bool

section Checks

variable (env : Env) (community : Community)

/-! ## The author's identity -/

def isStringDomain (s : String) : Bool := s.toList.contains '.'

def doesDomainAddressHaveCapitalLetter (s : String) : Bool :=
  isStringDomain s && s.toList.any fun c => 'A' ≤ c && c ≤ 'Z'

/-- The name an author gives: `name`, or an old record's `address` that is a domain. -/
def getAuthorNameFromWire (author : Option Fields) : Option String :=
  match author with
  | none => none
  | some fields =>
    match (fields.lookup "name").bind asString with
    | some name => some name
    | none => ((fields.lookup "address").bind asString).filter isStringDomain

/-- `address.endsWith(suffix)`. -/
def endsWith (address suffix : String) : Bool := suffix.toList.isSuffixOf address.toList

def isEthAliasDomain (address : String) : Bool :=
  endsWith (env.toLowerCase address) ".eth" || endsWith (env.toLowerCase address) ".bso"

def normalizeEthAliasDomain (address : String) : String :=
  if endsWith address ".bso" then
    String.ofList (address.toList.take (address.length - 4)) ++ ".eth"
  else address

/-- `x.bso`, `x.eth` and `X.eth` are one name. -/
def areEquivalentNames (nameA nameB : String) : Bool :=
  nameA = nameB ||
    (isEthAliasDomain env nameA && isEthAliasDomain env nameB &&
      normalizeEthAliasDomain (env.toLowerCase nameA) =
        normalizeEthAliasDomain (env.toLowerCase nameB))

/-- Whether an identity is the author's, and why a name that is could not be verified. -/
inductive IdentityMatchOutcome
  | matched
  | unmatched (nameFailure : Option Message)
deriving DecidableEq, Repr

/-- Whether the name the author gives resolves to their key. -/
def nameResolvesToSigner (wireName : Option String) (signerAddress : String) :
    IdentityMatchOutcome :=
  match wireName with
  | none => .unmatched none
  | some name =>
    if name = "" ∨ isStringDomain name = false then .unmatched none
    else
      match env.resolveAuthorName name with
      | .resolved address => if address = signerAddress then .matched else .unmatched none
      | .noRecord => .unmatched (some .ERR_AUTHOR_NAME_HAS_NO_RECORD)
      | .failed reason => .unmatched (some reason)

/-- Keys are compared first; a name is only resolved when no key is the author's. -/
def matchesAnyIdentity (publication : Publication) (identities : List String) :
    IdentityMatchOutcome :=
  let signerAddress := env.addressOfPublicKey publication.signature.publicKey
  let wireName := getAuthorNameFromWire publication.author
  if signerAddress ∈ identities then .matched
  else if identities.any fun identity =>
      match present wireName with
      | none => false
      | some name => areEquivalentNames env identity name then
    nameResolvesToSigner env wireName signerAddress
  else .unmatched none

def matchPublicationAuthorAgainstRoles (publication : Publication)
    (rolesToCheckAgainst : List Role) :
    IdentityMatchOutcome :=
  let roleKeys := (community.roles.filter fun role => role.2 ∈ rolesToCheckAgainst).map Prod.fst
  if roleKeys = [] then .unmatched none else matchesAnyIdentity env publication roleKeys

/-! ## The checks every publication goes through -/

/-- The key the community is addressed by. -/
def communityIdentityPublicKey : String :=
  community.anchorPublicKey.getD community.signerAddress

/-- The community's key, name, the clock and the ban; `banExpiresAt` is the author's in this
community. -/
def wireFormatRules (banExpiresAt : Option Int) (r : Request) : Rules :=
  let publicKey := r.communityPublicKey
  let name := present r.communityName
  [ (r.hasField ["subplebbitAddress"], .ERR_PUBLICATION_USES_DEPRECATED_SUBPLEBBIT_ADDRESS),
    (r.hasField ["communityAddress"], .ERR_PUBLICATION_USES_DEPRECATED_COMMUNITY_ADDRESS),
    (env.hasMalformedUnicodeString r, .ERR_PUBLICATION_HAS_MALFORMED_UNICODE_STRING),
    (present publicKey ≠ some (communityIdentityPublicKey community) &&
      community.anchorPublicKey.isSome && publicKey = some community.signerAddress,
      .ERR_PUBLICATION_SIGNED_TO_MINTER_INSTEAD_OF_ANCHOR),
    (present publicKey ≠ some (communityIdentityPublicKey community),
      .ERR_PUBLICATION_INVALID_COMMUNITY_PUBLIC_KEY),
    (name.any fun name => name ≠ community.address, .ERR_PUBLICATION_INVALID_COMMUNITY_NAME),
    (name.isNone && isStringDomain community.address, .ERR_PUBLICATION_MISSING_COMMUNITY_NAME),
    (r.timestamp ≤ env.timestamp - 5 * 60 || r.timestamp ≥ env.timestamp + 5 * 60,
      .ERR_PUBLICATION_TIMESTAMP_IS_NOT_IN_PROPER_RANGE),
    (banExpiresAt.any fun expires => expires > env.timestamp, .ERR_AUTHOR_IS_BANNED) ]

def checkWireFormatAndCommunityAuthor (banExpiresAt : Option Int) (r : Request) : Option Message :=
  (wireFormatRules env community banExpiresAt r).refusal

def authorReservedFields : List String :=
  ["community", "address", "publicKey", "shortAddress", "nameResolved"]

def authorFieldRules (author : Option Fields) : Rules :=
  let name := present (getAuthorNameFromWire author)
  [ (author.any fun fields => fields.isEmpty, .ERR_PUBLICATION_AUTHOR_IS_AN_EMPTY_OBJECT),
    (author.any fun fields => fields.any fun field => field.1 ∈ authorReservedFields,
      .ERR_PUBLICATION_AUTHOR_HAS_RESERVED_FIELD),
    (name.any fun name => !isStringDomain name, .ERR_AUTHOR_NAME_MUST_BE_A_DOMAIN),
    (name.any doesDomainAddressHaveCapitalLetter, .ERR_AUTHOR_NAME_HAS_CAPITAL_LETTER) ]

/-- The author's fields, and that the name they give resolves to their key. -/
def checkAuthorIdentity (r : Request) : Option Message :=
  (authorFieldRules r.author).refusal.or
    (match present (getAuthorNameFromWire r.author) with
    | none => none
    | some name =>
      if isStringDomain name = true ∧ community.resolveAuthorNames = true then
        match env.resolveAuthorNameCached name with
        | .failed reason => some reason
        | .noRecord => some .ERR_AUTHOR_NAME_HAS_NO_RECORD
        | .resolved address =>
          if address = env.addressOfPublicKey r.signature.publicKey then none
          else some .ERR_AUTHOR_DOMAIN_RESOLVES_TO_DIFFERENT_SIGNER
      else none)

/-! ## The state of the comment a publication is about -/

/-- `publication.parentCid || publication.commentCid`. -/
def Request.gateCid (r : Request) : Option Json :=
  match r.parentCid with
  | some value => if value.truthy then some value else r.commentCid
  | none => r.commentCid

/-- Who may still reply to a locked post or edit under it; nobody may vote. -/
def lockBypass (r : Request) : IdentityMatchOutcome :=
  if r.isVote then .unmatched none
  else matchPublicationAuthorAgainstRoles env community r.toPublication [.owner, .admin, .moderator]

/-- The reason a publication under a locked post is refused with. -/
def lockedMessage (outcome : IdentityMatchOutcome) : Message :=
  match outcome with
  | .unmatched (some reason) => reason
  | _ => .ERR_COMMUNITY_PUBLICATION_POST_IS_LOCKED

/-- The lifecycle rules for a publication about the comment `parent`. -/
def parentRules (r : Request) (parentCid : Cid) (parent : CommentsTableRow) : Rules :=
  let db := community.db
  let flag := db.queryCommentFlagSetByMod
  let exempt := r.isCommentModeration
  [ (flag CommentModerationRow.removed parentCid = some true && !exempt,
      .ERR_COMMUNITY_PUBLICATION_PARENT_HAS_BEEN_REMOVED),
    (db.queryAuthorEditDeleted parentCid = some true && !exempt,
      .ERR_COMMUNITY_PUBLICATION_PARENT_HAS_BEEN_DELETED),
    (flag CommentModerationRow.removed parent.postCid = some true && !exempt,
      .ERR_COMMUNITY_PUBLICATION_POST_HAS_BEEN_REMOVED),
    (db.queryAuthorEditDeleted parent.postCid = some true && !exempt,
      .ERR_COMMUNITY_PUBLICATION_POST_HAS_BEEN_DELETED),
    (flag CommentModerationRow.locked parent.postCid = some true && !exempt &&
      lockBypass env community r ≠ .matched, lockedMessage (lockBypass env community r)),
    (flag CommentModerationRow.archived parent.postCid = some true && !exempt,
      .ERR_COMMUNITY_PUBLICATION_POST_IS_ARCHIVED),
    (parent.timestamp > r.timestamp, .ERR_COMMUNITY_COMMENT_TIMESTAMP_IS_EARLIER_THAN_PARENT),
    (parent.pendingApproval && !exempt && !r.isDeletingEdit,
      .ERR_USER_PUBLISHED_UNDER_PENDING_COMMENT),
    (db.queryIsCommentApproved parent.cid = some false && !exempt && !r.isDeletingEdit,
      .ERR_USER_PUBLISHED_UNDER_DISAPPROVED_COMMENT) ]

def checkParentAndPostState (r : Request) : Option Message :=
  if r.commentCid.isSome = true ∨ r.parentCid.isSome = true then
    match r.gateCid.bind asString with
    | none => some .ERR_COMMUNITY_PUBLICATION_PARENT_CID_NOT_DEFINED
    | some parentCid =>
      match community.db.queryComment parentCid with
      | none => some .ERR_PUBLICATION_PARENT_DOES_NOT_EXIST_IN_COMMUNITY
      | some parent => (parentRules env community r parentCid parent).refusal
  else none

/-! ## Comments -/

def isFlairInAllowedList (flair : Json) (allowed : List Json) : Bool :=
  allowed.any (isDeepEqual flair)

def commentSignedPropertyNames : List String :=
  ["flairs", "spoiler", "nsfw", "content", "title", "link", "linkWidth", "linkHeight",
    "linkHtmlTagName", "parentCid", "postCid", "quotedCids", "crosspost", "gallery", "author",
    "communityPublicKey", "communityName", "protocolVersion", "timestamp"]

def commentReservedFields : List String :=
  ["depth", "thumbnailUrl", "thumbnailUrlWidth", "thumbnailUrlHeight", "previousCid",
    "pseudonymityMode", "cid", "insertedAt", "authorSignerAddress",
    "originalCommentSignatureEncoded", "extraProps", "challengeCommentUpdate", "pendingApproval",
    "number", "postNumber", "upvoteCount", "downvoteCount", "replyCount", "childCount", "edit",
    "pinned", "locked", "archived", "removed", "reason", "approved", "updatedAt", "lastChildCid",
    "lastReplyTimestamp", "replies", "postUpdatesBucket", "publishedToPostUpdatesMFS",
    "challengeAnswers", "challengeCommentCids", "comment", "signer", "communityAddress",
    "challengeRequest", "original", "shortCid", "shortCommunityAddress", "deleted", "raw",
    "commentUpdate", "state", "clients", "publishingState", "updatingState", "rowid",
    "nameResolved", "abortSignal"]

/-- The tag a gallery item of this link has to name. -/
def galleryHtmlTagName (url : String) : String :=
  if env.isLinkOfImage url then "img" else if env.isLinkOfVideo url then "video" else "audio"

def galleryItemRules (item : GalleryItem) : Rules :=
  [ (!env.isLinkValid item.url || !env.isLinkOfMedia item.url, .ERR_GALLERY_ITEM_NOT_MEDIA),
    (item.htmlTagName ≠ galleryHtmlTagName env item.url,
      .ERR_GALLERY_ITEM_HTML_TAG_NAME_MISMATCH) ]

def galleryRules (c : CommentFields) : Rules :=
  match c.gallery with
  | none => []
  | some gallery =>
    let isReply := (present c.parentCid).isSome
    let maxItems :=
      (if isReply then community.features.maxReplyGalleryItems
        else community.features.maxPostGalleryItems).getD 0
    [ (maxItems = 0 && isReply, .ERR_REPLY_GALLERY_NOT_ALLOWED),
      (maxItems = 0, .ERR_POST_GALLERY_NOT_ALLOWED),
      (gallery.length > maxItems && isReply, .ERR_REPLY_GALLERY_EXCEEDS_MAX_ITEMS),
      (gallery.length > maxItems, .ERR_POST_GALLERY_EXCEEDS_MAX_ITEMS) ] ++
      gallery.flatMap (galleryItemRules env)

/-- The markdown a comment or an edit may not contain. -/
def contentRules (content : Option String) : Rules :=
  let features := community.features
  let contains := fun test : String → Bool => (present content).any test
  [ (features.noMarkdownImages && contains env.contentContainsMarkdownImages,
      .ERR_COMMENT_CONTENT_CONTAINS_MARKDOWN_IMAGE),
    (features.noMarkdownVideos && contains env.contentContainsMarkdownVideos,
      .ERR_COMMENT_CONTENT_CONTAINS_MARKDOWN_VIDEO),
    (features.noMarkdownAudio && contains env.contentContainsMarkdownAudio,
      Message.ERR_COMMENT_CONTENT_CONTAINS_MARKDOWN_AUDIO) ]

/-- The flairs a comment or an edit may set. -/
def postFlairRules (flairs : Option (List Json)) : Rules :=
  let flairs := flairs.getD []
  (!flairs.isEmpty && !community.features.postFlairs, .ERR_POST_FLAIRS_NOT_ALLOWED) ::
    flairs.map fun flair =>
      (!isFlairInAllowedList flair community.postFlairs, .ERR_POST_FLAIR_NOT_IN_ALLOWED_FLAIRS)

/-- The flairs of the author a comment carries. -/
def authorFlairRules (author : Option Fields) : Rules :=
  let features := community.features
  let flairs := (((author.getD []).lookup "flairs").bind asArray).getD []
  [ (!flairs.isEmpty && !features.pseudonymityMode && !features.authorFlairs,
      .ERR_AUTHOR_FLAIRS_NOT_ALLOWED) ] ++
    (flairs.map fun flair =>
      (!features.pseudonymityMode && !isFlairInAllowedList flair community.authorFlairs,
        .ERR_AUTHOR_FLAIR_NOT_IN_ALLOWED_FLAIRS)) ++
    [ (features.requireAuthorFlairs && !features.pseudonymityMode && flairs.isEmpty,
      .ERR_AUTHOR_FLAIRS_REQUIRED) ]

/-- The rules about links and media. -/
def linkRules (c : CommentFields) : Rules :=
  let features := community.features
  let isReply := (present c.parentCid).isSome
  let link := present c.link
  let invalid := link.all fun url => !env.isLinkValid url
  let notMedia := link.any fun url => !env.isLinkValid url || !env.isLinkOfMedia url
  [ (features.requirePostLink && !isReply &&
      (link.isNone || (!features.requirePostLinkIsMedia && invalid)),
      .ERR_COMMENT_HAS_INVALID_LINK_FIELD),
    (features.requirePostLinkIsMedia && notMedia, .ERR_POST_LINK_IS_NOT_OF_MEDIA),
    (features.requireReplyLink && isReply &&
      (link.isNone || (!features.requireReplyLinkIsMedia && invalid)),
      .ERR_REPLY_HAS_INVALID_LINK_FIELD),
    (features.requireReplyLinkIsMedia && isReply && notMedia, .ERR_REPLY_LINK_IS_NOT_OF_MEDIA) ]

/-- The rules about what the link and the gallery show. -/
def mediaRules (c : CommentFields) : Rules :=
  let features := community.features
  let isReply := (present c.parentCid).isSome
  let mediaUrls := (present c.link).toList ++ (c.gallery.getD []).map GalleryItem.url
  let hasImage := mediaUrls.any env.isLinkOfImage
  let hasVideo := mediaUrls.any fun url => env.isLinkOfVideo url || env.isLinkOfAnimatedImage url
  let hasAudio := mediaUrls.any env.isLinkOfAudio
  let spoiler : Bool := c.spoiler = some true
  [ (features.noImages && hasImage, .ERR_COMMENT_HAS_LINK_THAT_IS_IMAGE),
    (features.noVideos && hasVideo, .ERR_COMMENT_HAS_LINK_THAT_IS_VIDEO),
    (features.noSpoilers && spoiler, .ERR_COMMENT_HAS_SPOILER_ENABLED),
    (features.noImageReplies && isReply && hasImage, .ERR_REPLY_HAS_LINK_THAT_IS_IMAGE),
    (features.noVideoReplies && isReply && hasVideo, .ERR_REPLY_HAS_LINK_THAT_IS_VIDEO),
    (features.noReplyLinks && isReply && (present c.link).isSome, .ERR_REPLY_HAS_LINK),
    (features.noAudio && hasAudio, Message.ERR_COMMENT_HAS_LINK_THAT_IS_AUDIO),
    (features.noAudioReplies && isReply && hasAudio, Message.ERR_REPLY_HAS_LINK_THAT_IS_AUDIO),
    (features.noSpoilerReplies && isReply && spoiler, .ERR_REPLY_HAS_SPOILER_ENABLED) ]

def maxCrosspostDepth : Nat := 10

def effectiveMaxCrosspostDepth (feature : Option Nat) : Nat :=
  match feature with
  | none => maxCrosspostDepth
  | some depth => min depth maxCrosspostDepth

/-- The number of records embedded in a crosspost, counted up to `stopAt`. -/
def crosspostChainDepthUpTo : Option Json → Nat → Nat
  | _, 0 => 0
  | some (.obj fields), stopAt + 1 =>
    1 + crosspostChainDepthUpTo (((fields.lookup "comment").bind (Json.get "crosspost"))) stopAt
  | some (.arr _), _ + 1 => 1
  | _, _ + 1 => 0

def crosspostRules (c : CommentFields) : Rules :=
  let maxDepth := effectiveMaxCrosspostDepth community.features.maxCrosspostDepth
  [ (c.crosspost.isSome && community.features.noCrossposts, .ERR_NOT_ALLOWED_TO_PUBLISH_CROSSPOSTS),
    (crosspostChainDepthUpTo c.crosspost (maxDepth + 1) > maxDepth,
      .ERR_CROSSPOST_CHAIN_EXCEEDS_COMMUNITY_MAX_DEPTH) ]

/-- The comment a quoted cid names: it is there, under the same post, and not pending. -/
def quotedCidRules (c : CommentFields) (quotedCid : Cid) : Rules :=
  match community.db.queryComment quotedCid with
  | none => [(true, .ERR_QUOTED_CID_DOES_NOT_EXIST)]
  | some quoted =>
    [ (some (if quoted.depth = 0 then quoted.cid else quoted.postCid) ≠ c.postCid,
        .ERR_QUOTED_CID_NOT_UNDER_POST),
      (quoted.pendingApproval, .ERR_QUOTED_CID_IS_PENDING_APPROVAL) ]

def quotedCidsRules (c : CommentFields) : Rules :=
  let quotedCids := c.quotedCids.getD []
  (!quotedCids.isEmpty && (present c.parentCid).isNone, .ERR_POST_CANNOT_HAVE_QUOTED_CIDS) ::
    quotedCids.flatMap (quotedCidRules community c)

/-- The rules before the parents of a reply are queried. -/
def commentRules (r : Request) (c : CommentFields) : Rules :=
  let features := community.features
  let parentCid := present c.parentCid
  [(r.hasField commentReservedFields, .ERR_COMMENT_HAS_RESERVED_FIELD)] ++
    linkRules env community c ++ galleryRules env community c ++
    contentRules env community c.content ++ mediaRules env community c ++
    [ (features.noNestedReplies && (parentCid.bind community.db.queryComment).any
        fun parent => parent.depth > 0, .ERR_NESTED_REPLIES_NOT_ALLOWED) ] ++
    postFlairRules community c.flairs ++
    [ (features.requirePostFlairs && parentCid.isNone && (c.flairs.getD []).isEmpty,
        .ERR_POST_FLAIRS_REQUIRED) ] ++
    authorFlairRules community r.author ++
    [ (parentCid.isSome && (present c.postCid).isNone, .ERR_REPLY_HAS_NOT_DEFINED_POST_CID) ]

/-- The rules after it. -/
def commentRulesAfterParents (r : Request) (c : CommentFields) : Rules :=
  crosspostRules community c ++ quotedCidsRules community c ++
    [ (community.db.hasCommentWithSignatureEncoded r.signature.signature, .ERR_DUPLICATE_COMMENT) ]

/-- The last of the parents has to be the post the reply names; with no parent at all that read
throws. -/
def checkCommentPublication (r : Request) (c : CommentFields) :
    Except TypeError (Option Message) :=
  match (commentRules env community r c).refusal with
  | some message => .ok (some message)
  | none =>
    match present c.parentCid with
    | none => .ok (commentRulesAfterParents community r c).refusal
    | some parentCid =>
      match (community.db.queryParentsCids parentCid).getLast? with
      | none => .error .propertyOfUndefined
      | some last =>
        if some last ≠ c.postCid then .ok (some .ERR_REPLY_POST_CID_IS_NOT_PARENT_OF_REPLY)
        else .ok (commentRulesAfterParents community r c).refusal

/-! ## Votes -/

def voteReservedFields : List String :=
  ["insertedAt", "authorSignerAddress", "extraProps", "challengeAnswers", "challengeCommentCids",
    "shortCommunityAddress", "communityAddress", "state", "publishingState", "signer", "clients",
    "nameResolved"]

def voteRules (r : Request) (vote : VoteValue) : Rules :=
  [ (r.hasField voteReservedFields, .ERR_VOTE_HAS_RESERVED_FIELD),
    (community.features.noUpvotes && vote = .up, .ERR_NOT_ALLOWED_TO_PUBLISH_UPVOTES),
    (community.features.noDownvotes && vote = .down, .ERR_NOT_ALLOWED_TO_PUBLISH_DOWNVOTES) ]

/-- The rules that look at the comment voted on. -/
def votedCommentRules (r : Request) (vote : VoteValue) (comment : CommentsTableRow) : Rules :=
  let features := community.features
  let isPost : Bool := comment.depth = 0
  [ (features.noPostDownvotes && isPost && vote = .down,
      .ERR_NOT_ALLOWED_TO_PUBLISH_POST_DOWNVOTES),
    (features.noPostUpvotes && isPost && vote = .up, .ERR_NOT_ALLOWED_TO_PUBLISH_POST_UPVOTES),
    (features.noReplyDownvotes && !isPost && vote = .down,
      .ERR_NOT_ALLOWED_TO_PUBLISH_REPLY_DOWNVOTES),
    (features.noReplyUpvotes && !isPost && vote = .up, .ERR_NOT_ALLOWED_TO_PUBLISH_REPLY_UPVOTES),
    ((community.db.queryVote comment.cid (env.addressOfPublicKey r.signature.publicKey)).isNone &&
      vote = .cancel, .ERR_THERE_IS_NO_PREVIOUS_VOTE_TO_CANCEL) ]

/-- The comment is assumed to be there: without it the read of its `depth` or `cid` throws. -/
def checkVotePublication (r : Request) (commentCid : Cid) (vote : VoteValue) :
    Except TypeError (Option Message) :=
  match (voteRules community r vote).refusal with
  | some message => .ok (some message)
  | none =>
    match community.db.queryComment commentCid with
    | none => .error .propertyOfUndefined
    | some comment => .ok (votedCommentRules env community r vote comment).refusal

/-! ## Moderations and edits -/

def commentModerationReservedFields : List String :=
  ["insertedAt", "modSignerAddress", "extraProps", "targetAuthorSignerAddress",
    "targetAuthorDomain", "challengeAnswers", "challengeCommentCids", "shortCommunityAddress",
    "communityAddress", "shortCommentCid", "state", "publishingState", "signer", "clients",
    "nameResolved"]

/-- The refusal of an author who holds none of the roles. -/
def roleRefusal (outcome : IdentityMatchOutcome) (message : Message) : Option Message :=
  match outcome with
  | .matched => none
  | .unmatched nameFailure => some (nameFailure.getD message)

def moderatedCommentRules (r : Request) (m : CommentModerationFields)
    (comment : CommentsTableRow) : Rules :=
  let db := community.db
  [ (m.locked = some true && comment.depth ≠ 0, .ERR_COMMUNITY_COMMENT_MOD_CAN_NOT_LOCK_REPLY),
    (community.features.noArchive && m.archived = some true &&
      db.queryCommentFlagSetByMod CommentModerationRow.archived comment.cid ≠ some true,
      .ERR_NOT_ALLOWED_TO_ARCHIVE_POSTS),
    (m.archived = some true && comment.depth ≠ 0,
      .ERR_COMMUNITY_COMMENT_MOD_CAN_NOT_ARCHIVE_REPLY),
    (db.hasCommentModerationWithSignatureEncoded r.signature.signature,
      .ERR_DUPLICATE_COMMENT_MODERATION),
    (m.approved.isSome && !comment.pendingApproval,
      .ERR_MOD_ATTEMPTING_TO_APPROVE_OR_DISAPPROVE_COMMENT_THAT_IS_NOT_PENDING) ]

def checkCommentModerationPublication (r : Request) (m : CommentModerationFields) :
    Option Message :=
  if r.hasField commentModerationReservedFields then
    some .ERR_COMMENT_MODERATION_HAS_RESERVED_FIELD
  else
    (roleRefusal
      (matchPublicationAuthorAgainstRoles env community r.toPublication [.owner, .moderator, .admin])
      .ERR_COMMENT_MODERATION_ATTEMPTED_WITHOUT_BEING_MODERATOR).or
      (match community.db.queryComment m.commentCid with
      | none => some .ERR_COMMENT_MODERATION_NO_COMMENT_TO_EDIT
      | some comment => (moderatedCommentRules community r m comment).refusal)

def communityEditReservedFields : List String :=
  ["challengeAnswers", "challengeCommentCids", "shortCommunityAddress", "communityAddress",
    "state", "publishingState", "signer", "clients", "nameResolved"]

def allowedCommunityEditKeys : List String :=
  ["posts", "modQueue", "challenges", "signature", "encryption", "name", "anchor", "createdAt",
    "updatedAt", "pubsubTopic", "statsCid", "protocolVersion", "postUpdates", "title",
    "description", "roles", "rules", "lastPostCid", "lastCommentCid", "features", "suggested",
    "flairs", "pageSorts", "address"]

def checkCommunityEditPublication (r : Request) (edit : Fields) : Option Message :=
  if r.hasField communityEditReservedFields then some .ERR_COMMUNITY_EDIT_HAS_RESERVED_FIELD
  else
    ((if ["roles", "address", "name"].any fun key => (edit.lookup key).any Json.truthy then
        roleRefusal (matchPublicationAuthorAgainstRoles env community r.toPublication [.owner])
          .ERR_COMMUNITY_EDIT_ATTEMPTED_TO_MODIFY_OWNER_EXCLUSIVE_PROPS
      else none).or
      (roleRefusal (matchPublicationAuthorAgainstRoles env community r.toPublication [.owner, .admin])
        .ERR_COMMUNITY_EDIT_ATTEMPTED_TO_MODIFY_COMMUNITY_WITHOUT_BEING_OWNER_OR_ADMIN)).or
      (if edit.any fun field => field.1 ∉ allowedCommunityEditKeys then
        some .ERR_COMMUNITY_EDIT_ATTEMPTED_TO_NON_PUBLIC_PROPS
      else none)

def commentEditReservedFields : List String :=
  ["insertedAt", "authorSignerAddress", "isAuthorEdit", "extraProps", "challengeAnswers",
    "challengeCommentCids", "commentEdit", "shortCommentCid", "shortCommunityAddress",
    "communityAddress", "state", "publishingState", "signer", "clients", "nameResolved"]

/-- The key an edit of the comment has to be signed with. -/
def originalAuthorPublicKey (comment : CommentsTableRow) : String :=
  match community.db.queryPseudonymityAliasByCommentCid comment.cid with
  | some aliasRow => aliasRow.originalAuthorPublicKey
  | none => comment.signature.publicKey

def editedCommentRules (r : Request) (e : CommentEditFields) (comment : CommentsTableRow) : Rules :=
  [ (community.db.hasCommentEditWithSignatureEncoded r.signature.signature,
      .ERR_DUPLICATE_COMMENT_EDIT),
    (r.signature.publicKey ≠ originalAuthorPublicKey community comment,
      .ERR_COMMENT_EDIT_CAN_NOT_EDIT_COMMENT_IF_NOT_ORIGINAL_AUTHOR) ] ++
    contentRules env community e.content ++
    [ (community.features.noSpoilers && e.spoiler = some true, .ERR_COMMENT_HAS_SPOILER_ENABLED),
      (community.features.noSpoilerReplies && comment.depth ≠ 0 && e.spoiler = some true,
        .ERR_REPLY_HAS_SPOILER_ENABLED) ] ++
    postFlairRules community e.flairs

def checkCommentEditPublication (r : Request) (e : CommentEditFields) : Option Message :=
  if r.hasField commentEditReservedFields then some .ERR_COMMENT_EDIT_HAS_RESERVED_FIELD
  else
    match community.db.queryComment e.commentCid with
    | none => some .ERR_COMMENT_EDIT_NO_COMMENT_TO_EDIT
    | some comment => (editedCommentRules env community r e comment).refusal

/-! ## All checks -/

/-- The check of the publication's own type. -/
def checkBody (r : Request) : Except TypeError (Option Message) :=
  match r.body with
  | .comment c => checkCommentPublication env community r c
  | .vote commentCid vote => checkVotePublication env community r commentCid vote
  | .commentModeration m => .ok (checkCommentModerationPublication env community r m)
  | .communityEdit edit => .ok (checkCommunityEditPublication env community r edit)
  | .commentEdit e => .ok (checkCommentEditPublication env community r e)

/-- The limit of 40 kB on the text of the publication. -/
def overAllowedSize (r : Request) : Bool := env.byteLength r > 40000

def checkPublicationValidity (banExpiresAt : Option Int) (r : Request) :
    Except TypeError (Option Message) :=
  match checkWireFormatAndCommunityAuthor env community banExpiresAt r with
  | some message => .ok (some message)
  | none =>
    match checkAuthorIdentity env community r with
    | some message => .ok (some message)
    | none =>
      match checkParentAndPostState env community r with
      | some message => .ok (some message)
      | none =>
        if overAllowedSize env r then .ok (some .ERR_REQUEST_PUBLICATION_OVER_ALLOWED_SIZE)
        else checkBody env community r

end Checks

end Validation
end Pkc

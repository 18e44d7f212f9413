import Pkc.Library.Memo
import Pkc.Publications.StoredComment

/-!
# Verifying records

The checks a client makes of a record it got from the network: of a comment, of a comment update
with its reply pages, of a page, and of a community with its pages.  They call each other, and each
of the four remembers under a key that a record passed.

* A `Record` is a JSON object with a signature; the members that are records themselves are parsed.
  `CommentUpdate`, `PageIpfs` and `PagesIpfs` are the tree of a comment update, down the reply
  pages.
* The part of a check that reads no cache is a list of rules, or a function that returns the message
  of a refusal.
* `verifyCommentIpfs`, `verifyCommentUpdate`, `verifyPage` and `verifyCommunity` run such parts and
  each other as memoised checks.
* `Env` is what they ask of code they only call: hashes, texts, the signature scheme and peer ids.
  No check reads the arguments about names and aborting, so these are left out.
-/

set_option autoImplicit false

namespace Pkc
namespace Signatures

open Json
open Memo
open Validation (Message Rules present commentSignedPropertyNames)
open StoredComment (isNull commentIpfsReservedFields)

/-! ## Records -/

structure JsonSignature where
  type : String
  /-- The signature itself, base64-encoded. -/
  signature : String
  publicKey : String
  signedPropertyNames : List String

def JsonSignature.toJson (s : JsonSignature) : Json :=
  .obj [("type", .str s.type), ("signature", .str s.signature), ("publicKey", .str s.publicKey),
    ("signedPropertyNames", .arr (s.signedPropertyNames.map .str))]

/-- A JSON object with a signature.  Of the members of the names in `parsed` it has none: they are
kept beside it. -/
structure Record (parsed : List String) where
  fields : Fields
  signature : JsonSignature
  unparsed : (("signature" :: parsed).all fun name => (fields.lookup name).isNone) = true

namespace Record

variable {parsed : List String}

/-- The whole object, with the members that are kept beside it. -/
def toFields (record : Record parsed) (members : Fields) : Fields :=
  record.fields ++ members ++ [("signature", record.signature.toJson)]

/-- A member that is a string. -/
def stringOf (record : Record parsed) (name : String) : Option String :=
  (record.fields.lookup name).bind asString

/-- The member `publicKey` of a member. -/
def publicKeyOf (record : Record parsed) (name : String) : Option String :=
  ((record.fields.lookup name).bind (Json.get "publicKey")).bind asString

end Record

/-- A comment on IPFS, without and with a crosspost. -/
inductive CommentIpfs
  | plain (record : Record ["depth", "crosspost"]) (depth : Nat)
  | crosspost (record : Record ["depth", "crosspost"]) (depth : Nat) (cid : Cid)
      (comment : CommentIpfs)

namespace CommentIpfs

def record : CommentIpfs → Record ["depth", "crosspost"]
  | .plain record _ => record
  | .crosspost record _ _ _ => record

def depth : CommentIpfs → Nat
  | .plain _ depth => depth
  | .crosspost _ depth _ _ => depth

def signature (c : CommentIpfs) : JsonSignature := c.record.signature

def toFields : CommentIpfs → Fields
  | .plain record depth => record.toFields [("depth", .num depth)]
  | .crosspost record depth cid comment =>
    record.toFields [("depth", .num depth),
      ("crosspost", .obj [("cid", .str cid), ("comment", .obj comment.toFields)])]

def parentCid (c : CommentIpfs) : Option Cid := c.record.stringOf "parentCid"

def postCid (c : CommentIpfs) : Option Cid := c.record.stringOf "postCid"

/-- The number of comments embedded in each other, counted up to `stopAt`. -/
def crosspostChainDepthUpTo : CommentIpfs → Nat → Nat
  | _, 0 => 0
  | .plain _ _, _ + 1 => 0
  | .crosspost _ _ _ comment, stopAt + 1 => comment.crosspostChainDepthUpTo stopAt + 1

end CommentIpfs

mutual

inductive CommentUpdate
  | mk (record : Record ["edit", "replies"]) (edit : Option (Record []))
      (replies : Option PagesIpfs)

/-- The pages of a comment's replies or of a community's posts, by the name of their sort. -/
inductive PagesIpfs
  | mk (pages : List (String × PageIpfs)) (pageCids : Option (List (String × Cid)))

inductive PageIpfs
  | mk (comments : List (CommentIpfs × CommentUpdate)) (nextCid : Option Cid)

end

/-- `pageCids?.[sortName]`, as the text that goes into a cache key; under the name of a member that
every object inherits there is always something. -/
def pageCidOf (pageCids : Option (List (String × Cid))) (sortName : String) : Option Cid :=
  pageCids.bind fun cids => (cids.lookup sortName).or (inheritedText sortName)

def optionalString (name : String) (value : Option String) : Fields :=
  (value.map fun s => (name, Json.str s)).toList

mutual

def CommentUpdate.toFields : CommentUpdate → Fields
  | .mk record edit none =>
    record.toFields (edit.map fun e => ("edit", Json.obj (e.toFields []))).toList
  | .mk record edit (some replies) =>
    record.toFields
      ((edit.map fun e => ("edit", Json.obj (e.toFields []))).toList ++
        [("replies", replies.toJson)])

def PagesIpfs.toJson : PagesIpfs → Json
  | .mk pages pageCids =>
    .obj (("pages", .obj (pagesToFields pages)) ::
      (pageCids.map fun cids =>
        ("pageCids", Json.obj (cids.map fun entry => (entry.1, .str entry.2)))).toList)

def pagesToFields : List (String × PageIpfs) → Fields
  | [] => []
  | (sortName, page) :: pages => (sortName, page.toJson) :: pagesToFields pages

def PageIpfs.toJson : PageIpfs → Json
  | .mk comments nextCid =>
    .obj (("comments", .arr (commentsToItems comments)) :: optionalString "nextCid" nextCid)

def commentsToItems : List (CommentIpfs × CommentUpdate) → List Json
  | [] => []
  | (comment, update) :: comments =>
    .obj [("comment", .obj comment.toFields), ("commentUpdate", .obj update.toFields)] ::
      commentsToItems comments

end

namespace CommentUpdate

def record : CommentUpdate → Record ["edit", "replies"]
  | .mk record _ _ => record

def edit : CommentUpdate → Option (Record [])
  | .mk _ edit _ => edit

def hasReplies : CommentUpdate → Bool
  | .mk _ _ replies => replies.isSome

def signature (u : CommentUpdate) : JsonSignature := u.record.signature

end CommentUpdate

/-- The record of a community. -/
structure CommunityIpfs where
  record : Record ["posts"]
  posts : Option PagesIpfs

namespace CommunityIpfs

def signature (c : CommunityIpfs) : JsonSignature := c.record.signature

def toFields (c : CommunityIpfs) : Fields :=
  c.record.toFields (c.posts.map fun posts => ("posts", posts.toJson)).toList

def name (c : CommunityIpfs) : Option String := c.record.stringOf "name"

def anchorPublicKey (c : CommunityIpfs) : Option String := c.record.publicKeyOf "anchor"

def encryptionPublicKey (c : CommunityIpfs) : Option String := c.record.publicKeyOf "encryption"

end CommunityIpfs

/-- What the checks of a page read of its community; of the signature and the anchor that is the
key. -/
structure CommunityForVerifyingPages where
  publicKey : Option String
  name : Option String
  signaturePublicKey : Option String
  anchorPublicKey : Option String

/-- What the checks of an update read of its comment, and the other members of the object they are
given. -/
structure CommentIpfsWithCidPostCidDefined where
  signature : JsonSignature
  cid : Cid
  depth : Nat
  postCid : Cid
  rest : Fields := []

def CommentIpfsWithCidPostCidDefined.toJson (c : CommentIpfsWithCidPostCidDefined) : Json :=
  .obj ([("signature", c.signature.toJson), ("cid", .str c.cid), ("depth", .num c.depth),
    ("postCid", .str c.postCid)] ++ c.rest)

/-- What the comments of a page are under. -/
inductive ParentCommentForVerifyingPages
  /-- The parent of every comment of a nested page, with the other members of the object. -/
  | nested (cid : Cid) (depth : Nat) (postCid : Cid) (rest : Fields)
  /-- The post above every comment of a flat page. -/
  | flat (postCid : Option Cid)
  /-- No parent: the page of a community's posts. -/
  | posts

namespace ParentCommentForVerifyingPages

def toJson : ParentCommentForVerifyingPages → Json
  | .nested cid depth postCid rest =>
    .obj ([("cid", .str cid), ("depth", .num depth), ("postCid", .str postCid)] ++ rest)
  | .flat postCid => .obj (optionalString "postCid" postCid)
  | .posts => .obj [("depth", .num (-1))]

def postCid : ParentCommentForVerifyingPages → Option Cid
  | .nested _ _ postCid _ => some postCid
  | .flat postCid => postCid
  | .posts => none

end ParentCommentForVerifyingPages

/-! ## Checks of a record -/

/-- What the verifications call. -/
structure Env extends Validation.Env where
  sha256 : String → String
  calculateIpfsHash : String → Cid
  /-- The JSON text of a document with sorted names. -/
  deterministicStringify : Json → String
  stringify : Json → String
  /-- `cborg.encode`. -/
  encode : Fields → String
  /-- Of bytes, a signature and a key; a signature that can not be read is not one. -/
  verifyBufferEd25519 : String → String → String → Bool
  peerIdFromString : String → Option String
  getPeerIdFromPublicKey : String → Option String

def authorCommentIpfsReservedFields : List String :=
  Validation.authorReservedFields.filter fun name => name ≠ "address"

def commentUpdateKeys : List String :=
  ["cid", "upvoteCount", "downvoteCount", "replyCount", "childCount", "number", "postNumber", "edit",
    "flairs", "spoiler", "nsfw", "pinned", "locked", "archived", "removed", "reason", "approved",
    "updatedAt", "author", "lastChildCid", "lastReplyTimestamp", "signature", "protocolVersion",
    "replies"]

def commentUpdateTableKeys : List String :=
  ["insertedAt", "postUpdatesBucket", "publishedToPostUpdatesMFS"]

def commentUpdateReservedFields : List String :=
  Validation.commentReservedFields.filter fun name =>
    name ∉ commentUpdateKeys ++ commentUpdateTableKeys ++ ["pendingApproval"]

def communityIpfsReservedFields : List String :=
  ["cid", "shortCid", "updateCid", "shortUpdateCid", "shortAddress", "nameResolved", "ipnsHops",
    "raw", "shortCommunityAddress", "deleted", "signer", "state", "clients", "startedState",
    "settings", "editable", "publishingState", "updatingState", "started", "exports", "abortSignal",
    "_pendingWarmStartKeyMigration", "_lastRefusedRecordUpdatedAt",
    "_nameToResolveBeforeFirstRecord"]

def maxCrosspostDepth : Nat := 10

section Rules

variable (env : Env)

/-- The signed members of a record that are not `null`.  None is called `__proto__`, which the
schemas drop. -/
def propsToSign (record : Fields) (signature : JsonSignature) : Fields :=
  (pick record signature.signedPropertyNames.dedup).filter fun field => !isNull field.2

/-- A signed name reads a function that every object inherits, which `cborg` does not encode. -/
def readsInherited (record : Fields) (signature : JsonSignature) : Bool :=
  signature.signedPropertyNames.any fun name =>
    (record.lookup name).isNone && name ∈ objectPrototypeMembers && name ≠ "__proto__"

def verifyJsonSignature (record : Fields) (signature : JsonSignature) : Bool :=
  !readsInherited record signature &&
    env.verifyBufferEd25519 (env.encode (propsToSign record signature)) signature.signature
      signature.publicKey

def allFieldsOfRecordInSignedPropertyNames (record : Fields) (signature : JsonSignature) : Bool :=
  (omitKeys record ["signature"]).all fun field => field.1 ∈ signature.signedPropertyNames

def isThereReservedFieldInRecord (record : Fields) (reservedFields : List String) : Bool :=
  record.any fun field => field.1 ∈ reservedFields

def isThereUnsignedSignableFieldInRecord (record : Fields) (signature : JsonSignature) : Bool :=
  commentSignedPropertyNames.any fun name =>
    (record.lookup name).isSome && name ∉ signature.signedPropertyNames

def isThereReservedFieldInAuthor (record : Fields) : Bool :=
  match record.lookup "author" with
  | some (.obj author) => isThereReservedFieldInRecord author authorCommentIpfsReservedFields
  | _ => false

def getCommunityPublicKeyFromWire (c : CommentIpfs) : Option String :=
  (c.record.stringOf "communityPublicKey").or
    ((c.record.stringOf "subplebbitAddress").filter fun address =>
      !Validation.isStringDomain address)

def getCommunityNameFromWire (c : CommentIpfs) : Option String :=
  (c.record.stringOf "communityName").or
    ((c.record.stringOf "subplebbitAddress").filter Validation.isStringDomain)

/-- Both are given, and they do not address one community. -/
def differentCommunities (a b : Option String) : Bool :=
  match present a, present b with
  | some a, some b => !Validation.areEquivalentNames env.toEnv a b
  | _, _ => false

/-! ## A comment -/

/-- The rules for the members of a comment, with the message of each. -/
def commentRecordRules (c : CommentIpfs)
    (reservedField reservedAuthorField unsignedField : Message) :
    Rules :=
  [ (isThereReservedFieldInRecord c.toFields commentIpfsReservedFields, reservedField),
    (isThereReservedFieldInAuthor c.toFields, reservedAuthorField),
    (isThereUnsignedSignableFieldInRecord c.toFields c.signature, unsignedField) ]

/-- The rules for a comment that is picked down to what its author signed. -/
def commentPubsubRules (c : CommentIpfs) : Rules :=
  let comment := pick c.toFields ("signature" :: c.signature.signedPropertyNames)
  [ (!allFieldsOfRecordInSignedPropertyNames comment c.signature,
      .ERR_COMMENT_PUBSUB_RECORD_INCLUDES_FIELD_NOT_IN_SIGNED_PROPERTY_NAMES),
    (!verifyJsonSignature env comment c.signature, .ERR_SIGNATURE_IS_INVALID) ]

/-- The rules for a crosspost but the signature of the embedded comment. -/
def crosspostRules (c : CommentIpfs) (cid : Cid) (comment : CommentIpfs) : Rules :=
  (c.crosspostChainDepthUpTo (maxCrosspostDepth + 1) > maxCrosspostDepth,
    .ERR_CROSSPOST_CHAIN_EXCEEDS_MAX_DEPTH) ::
  (env.calculateIpfsHash (env.deterministicStringify (.obj comment.toFields)) ≠ cid,
    .ERR_CROSSPOST_CID_DOES_NOT_MATCH_EMBEDDED_COMMENT) ::
  commentRecordRules comment .ERR_CROSSPOST_COMMENT_INCLUDES_RESERVED_FIELD
    .ERR_CROSSPOST_COMMENT_AUTHOR_INCLUDES_RESERVED_FIELD
    .ERR_CROSSPOST_COMMENT_INCLUDES_SIGNABLE_FIELD_NOT_IN_SIGNED_PROPERTY_NAMES

/-- `verifyCommentPubsubMessage` of the comment picked down to what its author signed, the only
way the checks here call it.  A crosspost that is not signed is not picked. -/
def verifyCommentPubsubMessage : CommentIpfs → Option Message
  | .plain record depth => (commentPubsubRules env (.plain record depth)).refusal
  | .crosspost record depth cid comment =>
    (commentPubsubRules env (.crosspost record depth cid comment)).refusal.or
      (if "crosspost" ∈ record.signature.signedPropertyNames then
        (crosspostRules env (.crosspost record depth cid comment) cid comment).refusal.or
          ((verifyCommentPubsubMessage comment).map fun _ =>
            .ERR_CROSSPOST_COMMENT_SIGNATURE_IS_INVALID)
      else none)

/-- Why a comment is refused, when its key is not found. -/
def commentIpfsRefusal (comment : CommentIpfs) (communityNameFromInstance : Option String) :
    Option Message :=
  let rules : Rules :=
    (differentCommunities env (getCommunityNameFromWire comment) communityNameFromInstance,
      .ERR_COMMENT_IPFS_COMMUNITY_NAME_MISMATCH) ::
    commentRecordRules comment .ERR_COMMENT_IPFS_RECORD_INCLUDES_RESERVED_FIELD
      .ERR_COMMENT_IPFS_AUTHOR_INCLUDES_RESERVED_FIELD
      .ERR_COMMENT_IPFS_RECORD_INCLUDES_SIGNABLE_FIELD_NOT_IN_SIGNED_PROPERTY_NAMES
  rules.refusal.or (verifyCommentPubsubMessage env comment)

/-! ## A comment update -/

/-- The rules for the author's edit in an update. -/
def commentUpdateEditRules (update : CommentUpdate) (comment : CommentIpfsWithCidPostCidDefined) :
    Rules :=
  match update.edit with
  | none => []
  | some edit =>
    [ (edit.signature.publicKey ≠ comment.signature.publicKey,
        .ERR_AUTHOR_EDIT_IS_NOT_SIGNED_BY_AUTHOR),
      (edit.stringOf "commentCid" ≠ update.record.stringOf "cid",
        .ERR_COMMENT_UPDATE_EDIT_IS_FOR_A_DIFFERENT_COMMENT),
      (!allFieldsOfRecordInSignedPropertyNames (edit.toFields []) edit.signature,
        .ERR_COMMENT_UPDATE_EDIT_INCLUDES_FIELD_NOT_IN_SIGNED_PROPERTY_NAMES) ]

/-- The rules that are tried before the key of an update is looked up. -/
def commentUpdateRules (update : CommentUpdate) (comment : CommentIpfsWithCidPostCidDefined)
    (validateUpdateSignature : Bool) : Rules :=
  (!allFieldsOfRecordInSignedPropertyNames update.toFields update.signature,
    .ERR_COMMENT_UPDATE_RECORD_INCLUDES_FIELD_NOT_IN_SIGNED_PROPERTY_NAMES) ::
  (isThereReservedFieldInRecord update.toFields commentUpdateReservedFields,
    .ERR_COMMENT_UPDATE_RECORD_INCLUDES_RESERVED_FIELD) ::
  (validateUpdateSignature && !verifyJsonSignature env update.toFields update.signature,
    .ERR_SIGNATURE_IS_INVALID) ::
  (update.record.stringOf "cid" ≠ some comment.cid,
    .ERR_COMMENT_UPDATE_DIFFERENT_CID_THAN_COMMENT) ::
  commentUpdateEditRules update comment

def editSignatureRules (update : CommentUpdate) : Rules :=
  match update.edit with
  | none => []
  | some edit =>
    [(!verifyJsonSignature env (edit.toFields []) edit.signature,
      .ERR_COMMENT_UPDATE_EDIT_SIGNATURE_IS_INVALID)]

def signedByCommunityRules (update : CommentUpdate) (community : CommunityForVerifyingPages) :
    Rules :=
  [(community.signaturePublicKey.any fun publicKey => update.signature.publicKey ≠ publicKey,
    .ERR_COMMENT_UPDATE_IS_NOT_SIGNED_BY_COMMUNITY)]

/-- The parent the comments of a reply page are checked against: a page that is not of direct
replies only is, under a post, a flat page. -/
def parentOfReplyPage (comment : CommentIpfsWithCidPostCidDefined) :
    PageIpfs → ParentCommentForVerifyingPages
  | .mk comments _ =>
    if comments.all (fun entry => entry.1.depth = comment.depth + 1) || comment.depth ≠ 0 then
      .nested comment.cid comment.depth comment.postCid
        (("signature", comment.signature.toJson) :: comment.rest)
    else .flat (some comment.cid)

/-- An entry of a flat page is signed with the `replies` that the page leaves out. -/
def isFlatRepliesPage (comment : CommentIpfsWithCidPostCidDefined) : PageIpfs → Bool
  | .mk comments _ =>
    comment.depth = 0 && comments.any fun entry =>
      entry.1.depth ≠ 1 ||
        ("replies" ∈ entry.2.signature.signedPropertyNames && !entry.2.hasReplies)

/-! ## The comments of a page -/

/-- The rules for where a comment stands below its parent. -/
def pageCommentParentRules (comment : CommentIpfs)
    (parentComment : ParentCommentForVerifyingPages) :
    Rules :=
  let postCidRule : Bool × Message := (comment.postCid ≠ parentComment.postCid,
    .ERR_PAGE_COMMENT_POST_CID_IS_NOT_SAME_AS_POST_CID_OF_COMMENT_INSTANCE)
  match parentComment with
  | .nested cid depth _ _ =>
    [ (some cid ≠ comment.parentCid, .ERR_PARENT_CID_OF_COMMENT_IN_PAGE_IS_NOT_CORRECT),
      (comment.depth > 0 && cid = "",
        .ERR_PAGE_COMMENT_IS_A_REPLY_BUT_HAS_NO_PARENT_COMMENT_INSTANCE),
      (depth + 1 ≠ comment.depth, .ERR_PAGE_COMMENT_DEPTH_VALUE_IS_NOT_RELATIVE_TO_ITS_PARENT),
      postCidRule ]
  | .flat _ => [postCidRule]
  | .posts =>
    [ (comment.parentCid.isSome, .ERR_PARENT_CID_OF_COMMENT_IN_PAGE_IS_NOT_CORRECT),
      (comment.depth > 0, .ERR_PAGE_COMMENT_IS_A_REPLY_BUT_HAS_NO_PARENT_COMMENT_INSTANCE),
      (comment.depth ≠ 0, .ERR_PAGE_COMMENT_DEPTH_VALUE_IS_NOT_RELATIVE_TO_ITS_PARENT),
      postCidRule ]

/-- The rules for the community a comment names.  The anchor is compared whether or not the
community has a name, the key only if it has none. -/
def pageCommentCommunityRules (comment : CommentIpfs) (community : CommunityForVerifyingPages) :
    Rules :=
  [ (differentCommunities env (getCommunityPublicKeyFromWire comment) community.anchorPublicKey,
      .ERR_COMMENT_IN_PAGE_BELONG_TO_DIFFERENT_COMMUNITY),
    (if (present community.name).isSome then
        differentCommunities env (getCommunityNameFromWire comment) community.name
      else differentCommunities env (getCommunityPublicKeyFromWire comment) community.publicKey,
      .ERR_COMMENT_IN_PAGE_BELONG_TO_DIFFERENT_COMMUNITY) ]

def pageCommentRules (comment : CommentIpfs) (community : CommunityForVerifyingPages)
    (parentComment : ParentCommentForVerifyingPages) : Rules :=
  (comment.depth = 0 && (present comment.postCid).isSome,
    .ERR_PAGE_COMMENT_POST_HAS_POST_CID_DEFINED_WITH_DEPTH_0) ::
  (pageCommentParentRules comment parentComment ++ pageCommentCommunityRules env comment community)

def calculatedCommentCid (comment : CommentIpfs) : Cid :=
  env.calculateIpfsHash (env.deterministicStringify (.obj comment.toFields))

/-- The post a comment of a page is below. -/
def postCidOfPageComment (comment : CommentIpfs) (parentComment : ParentCommentForVerifyingPages) :
    Option Cid :=
  (present parentComment.postCid).or
    (if comment.depth = 0 then some (calculatedCommentCid env comment)
      else present comment.postCid)

/-- The comment of a page as it is passed to the check of its update. -/
def updatedComment (comment : CommentIpfs) (postCid : Cid) : CommentIpfsWithCidPostCidDefined where
  signature := comment.signature
  cid := calculatedCommentCid env comment
  depth := comment.depth
  postCid := postCid

/-! ## A community -/

/-- The key readers address the community by: the anchor it claims, else the first hop. -/
def communityIdentityIpnsName (community : CommunityIpfs) (communityIpnsHops : List String) :
    String :=
  community.anchorPublicKey.getD (communityIpnsHops.headD "")

/-- The rules that are tried before the key of a community is looked up. -/
def communityRules (community : CommunityIpfs) (communityIpnsHops : List String) : Rules :=
  [ (!allFieldsOfRecordInSignedPropertyNames community.toFields community.signature,
      .ERR_COMMUNITY_RECORD_INCLUDES_FIELD_NOT_IN_SIGNED_PROPERTY_NAMES),
    (isThereReservedFieldInRecord community.toFields communityIpfsReservedFields,
      .ERR_COMMUNITY_RECORD_INCLUDES_RESERVED_FIELD),
    (communityIpnsHops.length > 1 && community.anchorPublicKey ≠ communityIpnsHops.head?,
      .ERR_COMMUNITY_RECORD_ANCHOR_CLAIM_DOES_NOT_MATCH_CHAIN_ANCHOR),
    (!verifyJsonSignature env community.toFields community.signature,
      .ERR_COMMUNITY_SIGNATURE_IS_INVALID) ]

def communityForPages (community : CommunityIpfs) (communityIpnsHops : List String) :
    CommunityForVerifyingPages where
  publicKey := some (communityIdentityIpnsName community communityIpnsHops)
  name := community.name
  signaturePublicKey := some community.signature.publicKey
  anchorPublicKey := community.anchorPublicKey

end Rules

/-! ## The verifying functions -/

inductive Cache
  | communityVerificationCache
  | pageVerificationCache
  | commentVerificationCache
  | commentUpdateVerificationCache
deriving DecidableEq, Repr

def Cache.max : Cache → Nat
  | .communityVerificationCache => 100
  | .pageVerificationCache => 1000
  | .commentVerificationCache => 5000
  | .commentUpdateVerificationCache => 100000

inductive Refusal
  | invalid (reason : Message)
  | thrown (message : String)
  /-- Thrown by code that is only called, on a key it can not read. -/
  | invalidPeerId
deriving DecidableEq, Repr

abbrev Check := Memo.Check Cache String Refusal

/-- Refused for the first rule that applies, if one does. -/
def refuse (reason : Option Message) : Check := reject (reason.map .invalid)

/-- A string as it is written in a concatenation. -/
def written (s : Option String) : String := s.getD "undefined"

section Verify

variable (env : Env)

def commentKey (comment : CommentIpfs) (calculatedCommentCid : Cid)
    (communityPublicKeyFromInstance communityNameFromInstance : Option String) : Cache × String :=
  (.commentVerificationCache,
    env.sha256 (comment.signature.signature ++ comment.signature.publicKey ++ calculatedCommentCid ++
      communityPublicKeyFromInstance.getD "" ++ communityNameFromInstance.getD ""))

def verifyCommentIpfs (comment : CommentIpfs) (calculatedCommentCid : Cid)
    (communityPublicKeyFromInstance communityNameFromInstance : Option String) : Check :=
  memo Cache.max true
    (some (commentKey env comment calculatedCommentCid communityPublicKeyFromInstance
      communityNameFromInstance))
    (refuse (commentIpfsRefusal env comment communityNameFromInstance))

def commentUpdateKey (update : CommentUpdate) (community : CommunityForVerifyingPages)
    (comment : CommentIpfsWithCidPostCidDefined) (validatePages validateUpdateSignature : Bool) :
    Cache × String :=
  let edit := match update.edit with
    | none => Json.null
    | some edit => .obj (edit.toFields [])
  (.commentUpdateVerificationCache,
    env.sha256 (update.signature.signature ++ written community.publicKey ++
      written community.name ++ env.stringify comment.toJson ++ env.stringify edit ++
      toString validatePages ++ toString validateUpdateSignature))

def pageKey (pageCid : Option Cid) (community : CommunityForVerifyingPages)
    (parentComment : ParentCommentForVerifyingPages)
    (validatePages validateUpdateSignature : Bool) :
    Option (Cache × String) :=
  (present pageCid).map fun pageCid =>
    (.pageVerificationCache,
      env.sha256 (pageCid ++ written community.publicKey ++ written community.name ++
        env.stringify parentComment.toJson ++ toString validatePages ++
        toString validateUpdateSignature))

mutual

def verifyCommentUpdate (community : CommunityForVerifyingPages) :
    CommentUpdate → CommentIpfsWithCidPostCidDefined → Bool → Bool → Check
  | .mk record edit replies, comment, validatePages, validateUpdateSignature =>
    andThen
      (refuse
        (commentUpdateRules env (.mk record edit replies) comment validateUpdateSignature).refusal)
      (memo Cache.max true
        (some (commentUpdateKey env (.mk record edit replies) community comment validatePages
          validateUpdateSignature))
        (andThen (refuse (editSignatureRules env (.mk record edit replies)).refusal)
          (andThen (verifyReplies community replies comment validatePages validateUpdateSignature)
            (refuse (signedByCommunityRules (.mk record edit replies) community).refusal))))

/-- The replies of an update, if there are some and pages are validated. -/
def verifyReplies (community : CommunityForVerifyingPages) :
    Option PagesIpfs → CommentIpfsWithCidPostCidDefined → Bool → Bool → Check
  | some (.mk pages pageCids), comment, true, validateUpdateSignature =>
    verifyReplyPages community pages pageCids comment validateUpdateSignature
  | some _, _, false, _ => refuse none
  | none, _, _, _ => refuse none

def verifyReplyPages (community : CommunityForVerifyingPages) :
    List (String × PageIpfs) → Option (List (String × Cid)) → CommentIpfsWithCidPostCidDefined →
      Bool → Check
  | [], _, _, _ => refuse none
  | (replySortName, page) :: pages, pageCids, comment, validateUpdateSignature =>
    andThen
      (verifyPage community page (pageCidOf pageCids replySortName) (parentOfReplyPage comment page)
        true (validateUpdateSignature && !isFlatRepliesPage comment page))
      (verifyReplyPages community pages pageCids comment validateUpdateSignature)

def verifyPage (community : CommunityForVerifyingPages) :
    PageIpfs → Option Cid → ParentCommentForVerifyingPages → Bool → Bool → Check
  | .mk comments _, pageCid, parentComment, validatePages, validateUpdateSignature =>
    memo Cache.max true
      (pageKey env pageCid community parentComment validatePages validateUpdateSignature)
      (verifyPageComments community comments parentComment validatePages validateUpdateSignature)

/-- The loop of `verifyPageComment` over the comments of a page. -/
def verifyPageComments (community : CommunityForVerifyingPages) :
    List (CommentIpfs × CommentUpdate) → ParentCommentForVerifyingPages → Bool → Bool → Check
  | [], _, _, _ => refuse none
  | (comment, update) :: comments, parentComment, validatePages, validateUpdateSignature =>
    andThen (refuse (pageCommentRules env comment community parentComment).refusal)
      (andThen
        (verifyCommentIpfs env comment (calculatedCommentCid env comment) community.publicKey
          community.name)
        (andThen
          (match postCidOfPageComment env comment parentComment with
            | none => refuse (some .ERR_PAGE_COMMENT_NO_WAY_TO_DERIVE_POST_CID)
            | some postCid =>
              verifyCommentUpdate community update (updatedComment env comment postCid)
                validatePages validateUpdateSignature)
          (verifyPageComments community comments parentComment validatePages
            validateUpdateSignature)))

end

/-- The loop over the preloaded pages of a community. -/
def verifyPostsPages (community : CommunityForVerifyingPages)
    (pageCids : Option (List (String × Cid))) : List (String × PageIpfs) → Check
  | [] => refuse none
  | (pageSortName, page) :: pages =>
    andThen
      (verifyPage env community page (pageCidOf pageCids pageSortName) .posts true false)
      (verifyPostsPages community pageCids pages)

/-- The key at the end of the chain signs the record, and is the key requests are encrypted to. -/
def communityPeerIdRefusal (community : CommunityIpfs) (communityIpnsHops : List String) :
    Option Refusal :=
  match env.peerIdFromString (communityIpnsHops.getLastD ""),
    env.getPeerIdFromPublicKey community.signature.publicKey with
  | some communityPeerId, some signaturePeerId =>
    if communityPeerId ≠ signaturePeerId then
      some (.invalid .ERR_COMMUNITY_IPNS_NAME_DOES_NOT_MATCH_SIGNATURE_PUBLIC_KEY)
    else
      match community.encryptionPublicKey.bind env.getPeerIdFromPublicKey with
      | none => some .invalidPeerId
      | some encryptionPeerId =>
        if encryptionPeerId ≠ signaturePeerId then
          some (.invalid .ERR_COMMUNITY_ENCRYPTION_PUBLIC_KEY_DOES_NOT_MATCH_SIGNATURE_PUBLIC_KEY)
        else none
  | _, _ => some .invalidPeerId

/-- What refuses a community before its key is looked up. -/
def communityRefusal (community : CommunityIpfs) (communityIpnsHops : List String) :
    Option Refusal :=
  if communityIpnsHops = [] then
    some (.thrown
      "verifyCommunity needs a non-empty communityIpnsHops to verify a community record against")
  else (communityRules env community communityIpnsHops).refusal.map .invalid

def communityKey (community : CommunityIpfs) (communityIpnsHops : List String)
    (validatePages : Bool) : Cache × String :=
  (.communityVerificationCache,
    env.sha256 (community.signature.signature ++ toString validatePages ++
      String.intercalate "," communityIpnsHops))

/-- The posts of a community, if there are some and pages are validated. -/
def verifyPosts (community : CommunityForVerifyingPages) : Option PagesIpfs → Bool → Check
  | some (.mk pages pageCids), true =>
    refusedAs (.invalid .ERR_COMMUNITY_POSTS_INVALID)
      (verifyPostsPages env community pageCids pages)
  | some _, false => refuse none
  | none, _ => refuse none

def verifyCommunity (community : CommunityIpfs) (communityIpnsHops : List String)
    (validatePages : Bool) (cacheIfValid : Option Bool) : Check :=
  andThen (reject (communityRefusal env community communityIpnsHops))
    (memo Cache.max (cacheIfValid.getD true)
      (some (communityKey env community communityIpnsHops validatePages))
      (andThen
        (verifyPosts env (communityForPages community communityIpnsHops) community.posts
          validatePages)
        (reject (communityPeerIdRefusal env community communityIpnsHops))))

end Verify

end Signatures
end Pkc

import Pkc.Publications.StoredComment
import Mathlib.Data.List.Induction

/-!
# What a comment shows after its updates

A comment that stays open is given one `CommentUpdate` after another, each of them the whole of what
its community says about it now.  What an update does not name is not reset to what the comment
itself says, it stays as the update before has left it.

* `initProps` makes an instance of a `CommentIpfs`, `initCommentUpdate` applies an update to it.
* `decidesContent`, `decidesFlairs` and the like are what an update says about a field, if anything;
  `latest` is the last word on it in a sequence of updates.
* `SameShown` compares what two instances show, and `Forgotten` is the condition on the updates.
* `shown_iff`: an instance shows what a fresh one with only the last update shows if and only if
  nothing of the earlier updates is left.

The verdicts on names that a cache has are written into the author at each update; the ones of an
embedded crosspost, which no update touches, are left out.
-/

set_option autoImplicit false

namespace Pkc
namespace ShownUpdate

open Json

/-! ## Instances -/

/-- The own properties of an object; `none` is `undefined`. -/
abbrev Props := String → Option Json

/-- `comment.replies`. -/
structure Replies where
  pages : Json
  pageCids : Json

/-- `resetPages`, and what the constructor begins with. -/
def Replies.empty : Replies := ⟨.obj [], .obj []⟩

structure Comment where
  cid : String
  /-- The properties apart from those below. -/
  props : Props
  author : Props
  replies : Replies
  /-- `raw.comment` and `raw.commentUpdate`. -/
  rawComment : Option Fields
  rawCommentUpdate : Option Fields

/-- The functions that are called for an instance. -/
structure Env where
  getPKCAddressFromPublicKeySync : String → String
  shortifyAddress : String → String
  parseRawPages : Json → Json

/-- The constructor, and the CID that the instance is for. -/
def construct (cid : String) : Comment where
  cid := cid
  props _ := none
  author _ := none
  replies := .empty
  rawComment := none
  rawCommentUpdate := none

namespace Comment

def set (this : Comment) (name : String) (value : Option Json) : Comment :=
  { this with props := Function.update this.props name value }

/-- `this.name = values.name` for each of the names. -/
def setAll (this : Comment) (names : List String) (values : Props) : Comment :=
  { this with props := fun name => if name ∈ names then values name else this.props name }

def setAuthor (this : Comment) (name : String) (value : Option Json) : Comment :=
  { this with author := Function.update this.author name value }

end Comment

/-- `Object.assign(target, source)`.  No source has a member `__proto__`, which would set the
prototype: the schemas drop it. -/
def assign (target : Props) (source : Fields) : Props := fun name =>
  (source.lookup name).or (target name)

/-! ## Making an instance -/

/-- `isStringDomain`. -/
def isStringDomain (address : String) : Bool := address.toList.contains '.'

/-- `getAuthorNameFromWire`. -/
def getAuthorNameFromWire (author : Option Json) : Option String :=
  match ((author.bind (get "name")).bind asString) with
  | some name => some name
  | none =>
    ((author.bind (get "address")).bind asString).filter fun address => isStringDomain address

/-- `buildRuntimeAuthor`, with the short address that an instance adds. -/
def buildRuntimeAuthor (env : Env) (author : Option Json) (signaturePublicKey : String) : Props :=
  let publicKey := env.getPKCAddressFromPublicKeySync signaturePublicKey
  let name := getAuthorNameFromWire author
  let address := match name.filter fun name => name ≠ "" with
    | some name => name
    | none => publicKey
  let wireAuthor := match StoredComment.cleanWireAuthor author with
    | some (.obj fields) => fields
    | _ => []
  assign (assign (fun _ => none) wireAuthor)
    ((match name.filter fun name => name ≠ "" with
      | some name => [("name", .str name)]
      | none => []) ++
      [("address", .str address), ("publicKey", .str publicKey),
        ("shortAddress", .str (env.shortifyAddress address))])

/-- `getAuthorNameFromRuntime`. -/
def getAuthorNameFromRuntime (author : Props) : Option String :=
  match (author "name").bind asString with
  | some name => some name
  | none => ((author "address").bind asString).filter fun address => isStringDomain address

/-- `_setAuthorNameResolvedFromCache`; `cached` is what the cache has on the name of the author. -/
def setAuthorNameResolvedFromCache (cached : Option Bool) (this : Comment) : Comment :=
  match getAuthorNameFromRuntime this.author, cached with
  | some domain, some verdict =>
    if domain = "" then this else this.setAuthor "nameResolved" (some (.bool verdict))
  | _, _ => this

/-- What `_initProps` sets of every comment. -/
def pubsubMessageProps : List String :=
  ["timestamp", "signature", "protocolVersion", "content", "flairs", "link", "linkHeight",
    "linkWidth", "parentCid", "spoiler", "nsfw", "title", "linkHtmlTagName", "quotedCids",
    "gallery", "crosspost"]

/-- What it sets of a comment with a depth. -/
def ipfsProps : List String :=
  ["depth", "previousCid", "thumbnailUrl", "thumbnailUrlHeight", "thumbnailUrlWidth",
    "pseudonymityMode"]

/-- `_initProps`; `none` if it throws, as there is no post to set. -/
def initProps (env : Env) (comment : Fields) (this : Comment) : Option Comment :=
  let signaturePublicKey :=
    (((comment.lookup "signature").bind (get "publicKey")).bind asString).getD ""
  let this := { this with
    author := buildRuntimeAuthor env (comment.lookup "author") signaturePublicKey }
  let this := this.setAll pubsubMessageProps fun name => comment.lookup name
  match comment.lookup "depth" with
  | some (.num depth) =>
    let postCid := match (comment.lookup "postCid").filter truthy with
      | some postCid => some postCid
      | none => if this.cid ≠ "" ∧ depth = 0 then some (.str this.cid) else none
    match postCid with
    | none => none
    | some postCid =>
      let this := this.setAll ipfsProps fun name => comment.lookup name
      some (this.set "postCid" (some postCid))
  | _ => some this

/-- `_initIpfsProps`. -/
def initIpfsProps (env : Env) (cached : Option Bool) (comment : Fields) (this : Comment) :
    Option Comment :=
  (initProps env comment { this with rawComment := some comment }).map fun this =>
    let unknownProps := omitKeys comment StoredComment.commentIpfsKeys
    setAuthorNameResolvedFromCache cached { this with props := assign this.props unknownProps }

/-- A fresh instance of a comment. -/
def fresh (env : Env) (cid : String) (cached : Option Bool) (comment : Fields) : Option Comment :=
  initIpfsProps env cached comment (construct cid)

/-! ## Applying an update -/

/-- The fields of `CommentUpdateSchema`. -/
def commentUpdateKeys : List String :=
  ["cid", "upvoteCount", "downvoteCount", "replyCount", "childCount", "number", "postNumber",
    "edit", "flairs", "spoiler", "nsfw", "pinned", "locked", "archived", "removed", "reason",
    "approved", "updatedAt", "author", "lastChildCid", "lastReplyTimestamp", "signature",
    "protocolVersion", "replies"]

/-- A record that `CommentUpdateSchema` lets pass, as far as an instance relies on it. -/
structure CommentUpdate where
  fields : Fields
  /-- `RepliesPagesIpfsSchema`: pages there are, page CIDs there may be. -/
  replies_valid : ∀ replies, fields.lookup "replies" = some replies →
    (∃ pages, replies.get "pages" = some (.obj pages)) ∧
      ∀ pageCids, replies.get "pageCids" = some pageCids → ∃ cids, pageCids = .obj cids
  updatedAt_valid : ∃ q, fields.lookup "updatedAt" = some (.num q)

/-- An update, and what the cache of names has when it is applied. -/
structure Received where
  update : CommentUpdate
  cached : Option Bool

def isBoolean : Json → Bool
  | .bool _ => true
  | _ => false

namespace CommentUpdate

/-- `props.name`. -/
def get (u : CommentUpdate) (name : String) : Option Json := u.fields.lookup name

/-- `props.edit?.name`. -/
def getEdit (u : CommentUpdate) (name : String) : Option Json := (u.get "edit").bind (Json.get name)

/-- What is assigned from `props.author`. -/
def author (u : CommentUpdate) : Fields :=
  match (u.get "author").filter truthy with
  | some (.obj fields) => fields
  | _ => []

/-- `props.author?.community?.flairs`. -/
def communityFlairs (u : CommentUpdate) : Option Json :=
  ((u.get "author").bind (Json.get "community")).bind (Json.get "flairs")

/-- `props.edit?.author?.flairs`. -/
def editFlairs (u : CommentUpdate) : Option Json :=
  (u.getEdit "author").bind (Json.get "flairs")

/-- The fields that are set on the instance because the schema does not name them; with a depth the
record is taken for the comment of a page. -/
def unknownProps (u : CommentUpdate) : Fields :=
  if (u.get "depth").isSome then [] else omitKeys u.fields commentUpdateKeys

/-- `props.replies.pageCids`. -/
def pageCids (u : CommentUpdate) : Option Json :=
  ((u.get "replies").filter truthy).bind fun replies => (replies.get "pageCids").filter truthy

end CommentUpdate

/-- `_updateRepliesPostsInstance`. -/
def updateRepliesPostsInstance (env : Env) (newReplies : Option Json) (replies : Replies) :
    Replies :=
  match newReplies.filter truthy with
  | none => .empty
  | some newReplies =>
    match newReplies.get "pages", (newReplies.get "pageCids").filter truthy with
    | none, some pageCids => ⟨.obj [], pageCids⟩
    | some pages, none => if pages.truthy then ⟨env.parseRawPages newReplies, .obj []⟩ else replies
    | some pages, some pageCids =>
      if pages.truthy && !isDeepEqual replies.pageCids pageCids then
        ⟨env.parseRawPages newReplies, pageCids⟩
      else replies
    | none, none => replies

/-- What is copied from the update. -/
def copiedProps : List String :=
  ["upvoteCount", "downvoteCount", "replyCount", "childCount", "updatedAt", "pinned", "locked",
    "archived", "removed", "reason", "edit", "protocolVersion", "lastChildCid",
    "lastReplyTimestamp", "approved", "number", "postNumber"]

/-- `typeof value === "boolean" ? value : otherwise`. -/
def orUnlessBoolean (value otherwise : Option Json) : Option Json :=
  (value.filter isBoolean).or otherwise

/-- `value || otherwise`. -/
def orElse (value otherwise : Option Json) : Option Json := (value.filter truthy).or otherwise

/-- The new value of `pendingApproval`. -/
def nextPendingApproval (u : CommentUpdate) (pendingApproval : Option Json) : Option Json :=
  if pendingApproval.any isBoolean || (u.get "pendingApproval").isSome then
    some (.bool ((u.get "pendingApproval").any truthy))
  else if (u.get "approved").any isBoolean then some (.bool false)
  else pendingApproval

/-- `_initCommentUpdate`. -/
def initCommentUpdate (env : Env) (received : Received) (this : Comment) : Comment :=
  let u := received.update
  let this := { this with
    rawCommentUpdate := if (u.get "depth").isSome then this.rawCommentUpdate else some u.fields
    props := assign this.props u.unknownProps }
  let this := this.setAll copiedProps u.get
  let this := this.set "deleted" (u.getEdit "deleted")
  -- Merge props from original comment and CommentUpdate
  let this := this.set "spoiler"
    (orUnlessBoolean (u.get "spoiler")
      (orUnlessBoolean (u.getEdit "spoiler") (this.props "spoiler")))
  let this := this.set "nsfw"
    (orUnlessBoolean (u.get "nsfw") (orUnlessBoolean (u.getEdit "nsfw") (this.props "nsfw")))
  let this := { this with author := assign this.author u.author }
  let this := this.set "content" (orElse (u.getEdit "content") (this.props "content"))
  let this := this.set "flairs"
    (orElse (u.get "flairs") (orElse (u.getEdit "flairs") (this.props "flairs")))
  let this := this.setAuthor "flairs"
    (orElse u.communityFlairs (orElse u.editFlairs (this.author "flairs")))
  let this := { this with
    replies := updateRepliesPostsInstance env (u.get "replies") this.replies }
  let this := this.set "pendingApproval" (nextPendingApproval u (this.props "pendingApproval"))
  setAuthorNameResolvedFromCache received.cached this

/-- The updates are applied one after another. -/
def applyAll (env : Env) (this : Comment) (received : List Received) : Comment :=
  received.foldl (fun this r => initCommentUpdate env r this) this

/-! ## What an instance shows -/

/-- Equal up to the order of members. -/
def Same (a b : Option Json) : Prop := a.map sortKeysDeep = b.map sortKeysDeep

instance (a b : Option Json) : Decidable (Same a b) :=
  inferInstanceAs (Decidable (a.map sortKeysDeep = b.map sortKeysDeep))

theorem same_refl (a : Option Json) : Same a a := rfl

/-- Fields that keep their value if an update does not name them. -/
def keptProps : List String := ["content", "spoiler", "nsfw", "flairs", "pendingApproval"]

/-- The other fields of edits and moderation, which every update replaces. -/
def replacedProps : List String :=
  ["edit", "deleted", "pinned", "locked", "archived", "removed", "reason", "approved"]

/-- Two instances show the same. -/
structure SameShown (a b : Comment) : Prop where
  props : ∀ name ∈ keptProps ++ replacedProps, Same (a.props name) (b.props name)
  author : ∀ key, key ≠ "nameResolved" → Same (a.author key) (b.author key)
  pages : Same (some a.replies.pages) (some b.replies.pages)
  pageCids : Same (some a.replies.pageCids) (some b.replies.pageCids)

/-! ## What an update says about a field -/

/-- `spoiler` or `nsfw`. -/
def decidesFlag (name : String) (u : CommentUpdate) : Option Json :=
  ((u.get name).filter isBoolean).or ((u.getEdit name).filter isBoolean)

def decidesContent (u : CommentUpdate) : Option Json :=
  ((u.getEdit "content").filter truthy).or (u.unknownProps.lookup "content")

def decidesFlairs (u : CommentUpdate) : Option Json :=
  ((u.get "flairs").filter truthy).or ((u.getEdit "flairs").filter truthy)

def decidesAuthor (key : String) (u : CommentUpdate) : Option Json := u.author.lookup key

def decidesAuthorFlairs (u : CommentUpdate) : Option Json :=
  (u.communityFlairs.filter truthy).or ((u.editFlairs.filter truthy).or (u.author.lookup "flairs"))

def decidesPendingApproval (u : CommentUpdate) : Bool :=
  (u.get "pendingApproval").isSome || (u.get "approved").any isBoolean

/-- The last word of a sequence of updates on a field. -/
def latest (decides : CommentUpdate → Option Json) (updates : List CommentUpdate) : Option Json :=
  updates.reverse.findSome? decides

/-- The page CIDs after an update, or those of a fresh instance. -/
def cidsAfter (u : Option CommentUpdate) : Json := (u.bind CommentUpdate.pageCids).getD (.obj [])

/-- The update brings the page CIDs that are there after the one before it. -/
def keepsReplies (before : Option CommentUpdate) (u : CommentUpdate) : Bool :=
  u.pageCids.any fun pageCids => isDeepEqual (cidsAfter before) pageCids

/-- The update whose replies are shown, going back from the latest as long as the page CIDs stay. -/
def repliesFrom : List CommentUpdate → Option CommentUpdate
  | [] => none
  | u :: before => if keepsReplies before.head? u then repliesFrom before else some u

/-- The pages of an update. -/
def pagesOf (env : Env) (u : CommentUpdate) : Json :=
  match (u.get "replies").filter truthy with
  | none => .obj []
  | some replies => env.parseRawPages replies

/-- The pages that are shown after updates, the latest first. -/
def shownPages (env : Env) (updates : List CommentUpdate) : Json :=
  match repliesFrom updates with
  | none => .obj []
  | some u => pagesOf env u

/-! ## The condition -/

/-- The last update names the field, or what the updates before it have left there is what the
comment itself says. -/
def Forgotten (decides : CommentUpdate → Option Json) (original : Option Json)
    (earlier : List CommentUpdate) (last : CommentUpdate) : Prop :=
  decides last = none → ∀ value, latest decides earlier = some value → Same (some value) original

/-- **The condition on the updates**; `this` is the fresh instance. -/
structure AllForgotten (env : Env) (this : Comment) (earlier : List CommentUpdate)
    (last : CommentUpdate) : Prop where
  content : Forgotten decidesContent (this.props "content") earlier last
  spoiler : Forgotten (decidesFlag "spoiler") (this.props "spoiler") earlier last
  nsfw : Forgotten (decidesFlag "nsfw") (this.props "nsfw") earlier last
  flairs : Forgotten decidesFlairs (this.props "flairs") earlier last
  author : ∀ key, key ≠ "nameResolved" → key ≠ "flairs" →
    Forgotten (decidesAuthor key) (this.author key) earlier last
  authorFlairs : Forgotten decidesAuthorFlairs (this.author "flairs") earlier last
  pendingApproval : decidesPendingApproval last = true ∨
    (this.props "pendingApproval").any isBoolean = true ∨
      ∀ u ∈ earlier, decidesPendingApproval u = false
  /-- The last update brings other page CIDs than there are, or the pages that stay are the same. -/
  replies : keepsReplies earlier.getLast? last = true ∨ keepsReplies none last = true →
    Same (some (shownPages env (last :: earlier.reverse))) (some (shownPages env [last]))

/-! ## One update -/

section Update

variable {env : Env} {r : Received} {this : Comment} {name key : String}

theorem lookup_unknownProps (u : CommentUpdate) (hname : name ∈ commentUpdateKeys) :
    u.unknownProps.lookup name = none := by
  rw [CommentUpdate.unknownProps]
  split
  · rfl
  · rw [lookup_omitKeys, if_pos hname]

@[simp]
theorem props_setAuthorNameResolvedFromCache (cached : Option Bool) (this : Comment) :
    (setAuthorNameResolvedFromCache cached this).props = this.props := by
  unfold setAuthorNameResolvedFromCache
  split
  · split <;> rfl
  · rfl

@[simp]
theorem replies_setAuthorNameResolvedFromCache (cached : Option Bool) (this : Comment) :
    (setAuthorNameResolvedFromCache cached this).replies = this.replies := by
  unfold setAuthorNameResolvedFromCache
  split
  · split <;> rfl
  · rfl

theorem author_setAuthorNameResolvedFromCache (cached : Option Bool) (this : Comment)
    (hkey : key ≠ "nameResolved") :
    (setAuthorNameResolvedFromCache cached this).author key = this.author key := by
  unfold setAuthorNameResolvedFromCache
  split
  · split
    · rfl
    · exact Function.update_of_ne hkey ..
  · rfl

theorem props_set (this : Comment) (name other : String) (value : Option Json) :
    (this.set name value).props other = if other = name then value else this.props other := by
  exact Function.update_apply ..

theorem props_setAll (this : Comment) (names : List String) (values : Props) (other : String) :
    (this.setAll names values).props other =
      if other ∈ names then values other else this.props other := rfl

theorem props_setAuthor (this : Comment) (name : String) (value : Option Json) :
    (this.setAuthor name value).props = this.props := rfl

/-- The properties after an update, by name. -/
theorem props_initCommentUpdate (env : Env) (r : Received) (this : Comment) (name : String) :
    (initCommentUpdate env r this).props name =
      let before := (r.update.unknownProps.lookup name).or (this.props name)
      let u := r.update
      if name = "pendingApproval" then nextPendingApproval u before
      else if name = "flairs" then orElse (u.get "flairs") (orElse (u.getEdit "flairs") before)
      else if name = "content" then orElse (u.getEdit "content") before
      else if name = "nsfw" then
        orUnlessBoolean (u.get "nsfw") (orUnlessBoolean (u.getEdit "nsfw") before)
      else if name = "spoiler" then
        orUnlessBoolean (u.get "spoiler") (orUnlessBoolean (u.getEdit "spoiler") before)
      else if name = "deleted" then u.getEdit "deleted"
      else if name ∈ copiedProps then u.get name
      else before := by
  have hcopied : ∀ name ∈ keptProps, (name ∈ copiedProps) = False := by decide
  simp only [keptProps, List.forall_mem_cons, List.not_mem_nil, false_implies, implies_true,
    and_true] at hcopied
  obtain ⟨hcontent, hspoiler, hnsfw, hflairs, hpending⟩ := hcopied
  rw [initCommentUpdate]
  simp only [props_setAuthorNameResolvedFromCache, props_set, props_setAuthor, props_setAll,
    String.reduceEq, ↓reduceIte, hspoiler, hnsfw, hcontent, hflairs, hpending, assign]
  split_ifs <;> subst_vars <;> rfl

/-- Names that the schema knows are not set twice. -/
theorem before_eq (u : CommentUpdate) (value : Option Json) (hname : name ∈ commentUpdateKeys) :
    (u.unknownProps.lookup name).or value = value := by
  rw [lookup_unknownProps u hname, Option.none_or]

theorem spoiler_initCommentUpdate : (initCommentUpdate env r this).props "spoiler" =
    (decidesFlag "spoiler" r.update).or (this.props "spoiler") := by
  rw [props_initCommentUpdate, before_eq _ _ (by decide), decidesFlag, Option.or_assoc]
  rfl

theorem nsfw_initCommentUpdate : (initCommentUpdate env r this).props "nsfw" =
    (decidesFlag "nsfw" r.update).or (this.props "nsfw") := by
  rw [props_initCommentUpdate, before_eq _ _ (by decide), decidesFlag, Option.or_assoc]
  rfl

theorem flairs_initCommentUpdate : (initCommentUpdate env r this).props "flairs" =
    (decidesFlairs r.update).or (this.props "flairs") := by
  rw [props_initCommentUpdate, before_eq _ _ (by decide), decidesFlairs, Option.or_assoc]
  rfl

theorem content_initCommentUpdate : (initCommentUpdate env r this).props "content" =
    (decidesContent r.update).or (this.props "content") := by
  rw [props_initCommentUpdate, decidesContent, Option.or_assoc]
  rfl

/-- What is replaced is that of the update. -/
theorem replaced_initCommentUpdate {r' : Received} (this' : Comment)
    (hname : name ∈ replacedProps) (hr : r.update = r'.update) :
    (initCommentUpdate env r this).props name = (initCommentUpdate env r' this').props name := by
  rw [props_initCommentUpdate, props_initCommentUpdate, hr]
  simp only [replacedProps, List.mem_cons, List.not_mem_nil, or_false] at hname
  rcases hname with rfl | rfl | rfl | rfl | rfl | rfl | rfl | rfl <;> rfl

theorem pendingApproval_initCommentUpdate :
    (initCommentUpdate env r this).props "pendingApproval" =
      nextPendingApproval r.update (this.props "pendingApproval") := by
  rw [props_initCommentUpdate]
  simp only [↓reduceIte]
  rw [CommentUpdate.unknownProps]
  split
  · rfl
  · rw [lookup_omitKeys, if_neg (by decide)]
    cases hin : r.update.fields.lookup "pendingApproval" with
    | none => rfl
    | some value =>
      have hget : r.update.get "pendingApproval" = some value := hin
      simp [nextPendingApproval, hget]

theorem author_initCommentUpdate (hkey : key ≠ "nameResolved") (hflairs : key ≠ "flairs") :
    (initCommentUpdate env r this).author key =
      (decidesAuthor key r.update).or (this.author key) := by
  rw [initCommentUpdate, author_setAuthorNameResolvedFromCache _ _ hkey]
  dsimp only [Comment.set, Comment.setAuthor, Comment.setAll]
  rw [Function.update_of_ne hflairs]
  rfl

theorem authorFlairs_initCommentUpdate :
    (initCommentUpdate env r this).author "flairs" =
      (decidesAuthorFlairs r.update).or (this.author "flairs") := by
  rw [initCommentUpdate, author_setAuthorNameResolvedFromCache _ _ (by decide),
    decidesAuthorFlairs, Option.or_assoc, Option.or_assoc]
  dsimp only [Comment.set, Comment.setAuthor, Comment.setAll]
  rw [Function.update_self]
  rfl

/-- The replies after an update. -/
theorem replies_initCommentUpdate : (initCommentUpdate env r this).replies =
    if r.update.pageCids.any (isDeepEqual this.replies.pageCids) then this.replies
    else ⟨pagesOf env r.update, cidsAfter (some r.update)⟩ := by
  rw [initCommentUpdate]
  simp only [replies_setAuthorNameResolvedFromCache]
  change updateRepliesPostsInstance env (r.update.get "replies") this.replies = _
  rw [updateRepliesPostsInstance, cidsAfter, Option.bind_some, pagesOf, CommentUpdate.pageCids]
  cases hreplies : (r.update.get "replies").filter truthy with
  | none => rfl
  | some replies =>
    obtain ⟨hget, -⟩ := Option.filter_eq_some_iff.1 hreplies
    obtain ⟨⟨pages, hpages⟩, -⟩ := r.update.replies_valid replies hget
    dsimp only
    rw [hpages, Option.bind_some]
    cases hcids : (replies.get "pageCids").filter truthy with
    | none => rfl
    | some pageCids =>
      rw [Option.any_some, Option.getD_some]
      dsimp only
      cases isDeepEqual this.replies.pageCids pageCids <;> rfl

end Update

/-! ## A sequence of updates -/

section Sequence

variable {env : Env} {this : Comment} {received : List Received} {u : CommentUpdate}
  {updates : List CommentUpdate} {decides : CommentUpdate → Option Json}

theorem latest_append (decides : CommentUpdate → Option Json) (updates : List CommentUpdate)
    (u : CommentUpdate) :
    latest decides (updates ++ [u]) = (decides u).or (latest decides updates) := by
  rw [latest, List.reverse_append, List.reverse_singleton, List.singleton_append,
    List.findSome?_cons, latest]
  cases decides u <;> rfl

theorem applyAll_append (env : Env) (this : Comment) (received : List Received) (r : Received) :
    applyAll env this (received ++ [r]) = initCommentUpdate env r (applyAll env this received) := by
  rw [applyAll, List.foldl_append]
  rfl

/-- A field that is kept has the last word of the updates, or what was there before. -/
theorem kept_applyAll (f : Comment → Option Json)
    (hf : ∀ r this, f (initCommentUpdate env r this) = (decides r.update).or (f this)) :
    f (applyAll env this received) =
      (latest decides (received.map Received.update)).or (f this) := by
  induction received using List.reverseRecOn with
  | nil => rfl
  | append_singleton received r ih =>
    rw [applyAll_append, hf, ih, List.map_append, List.map_singleton, latest_append,
      Option.or_assoc]

variable (env this received) in
/-- Where the last update says nothing, the instances differ in what is left of the earlier ones. -/
theorem same_kept_iff (f : Comment → Option Json)
    (hf : ∀ r this, f (initCommentUpdate env r this) = (decides r.update).or (f this))
    {last last' : Received} (hlast : last.update = last'.update) :
    Same (f (applyAll env this (received ++ [last]))) (f (applyAll env this [last'])) ↔
      Forgotten decides (f this) (received.map Received.update) last.update := by
  have hfresh : applyAll env this [last'] = initCommentUpdate env last' this := rfl
  rw [applyAll_append, hf, kept_applyAll f hf, hfresh, hf, ← hlast, Forgotten]
  cases decides last.update with
  | some value => simp [same_refl]
  | none =>
    cases latest decides (received.map Received.update) with
    | none => simp [same_refl]
    | some value => simp

theorem isBoolean_nextPendingApproval (u : CommentUpdate) (pendingApproval : Option Json) :
    (nextPendingApproval u pendingApproval).any isBoolean =
      (decidesPendingApproval u || pendingApproval.any isBoolean) := by
  unfold nextPendingApproval decidesPendingApproval
  cases (u.get "pendingApproval").isSome <;> cases (u.get "approved").any isBoolean <;>
    cases h : pendingApproval.any isBoolean <;> simp [isBoolean, h]

variable (env this received) in
theorem pendingApproval_applyAll :
    let after := (applyAll env this received).props "pendingApproval"
    after.any isBoolean = ((received.map Received.update).any decidesPendingApproval ||
      (this.props "pendingApproval").any isBoolean) ∧
    (after.any isBoolean = false → after = this.props "pendingApproval") := by
  induction received using List.reverseRecOn with
  | nil => exact ⟨rfl, fun _ => rfl⟩
  | append_singleton received r ih =>
    obtain ⟨hboolean, hkept⟩ := ih
    dsimp only at hboolean hkept ⊢
    rw [applyAll_append, pendingApproval_initCommentUpdate, isBoolean_nextPendingApproval, hboolean,
      List.map_append, List.any_append, List.map_singleton, List.any_cons, List.any_nil,
      Bool.or_false]
    refine ⟨by rw [← Bool.or_assoc, Bool.or_comm (decidesPendingApproval _)], fun hnone => ?_⟩
    rw [Bool.or_eq_false_iff] at hnone
    rw [← hboolean] at hnone
    obtain ⟨hdecides, hafter⟩ := hnone
    rw [decidesPendingApproval, Bool.or_eq_false_iff] at hdecides
    rw [nextPendingApproval, hafter, hdecides.1, hdecides.2]
    exact hkept hafter

variable (env this received) in
theorem same_pendingApproval_iff {last last' : Received} (hlast : last.update = last'.update) :
    Same ((applyAll env this (received ++ [last])).props "pendingApproval")
        ((applyAll env this [last']).props "pendingApproval") ↔
      decidesPendingApproval last.update = true ∨
        (this.props "pendingApproval").any isBoolean = true ∨
          ∀ u ∈ received.map Received.update, decidesPendingApproval u = false := by
  have hfresh : applyAll env this [last'] = initCommentUpdate env last' this := rfl
  obtain ⟨hboolean, hkept⟩ := pendingApproval_applyAll env this received
  rw [applyAll_append, hfresh, pendingApproval_initCommentUpdate, pendingApproval_initCommentUpdate,
    ← hlast]
  generalize (applyAll env this received).props "pendingApproval" = after at hboolean hkept
  generalize this.props "pendingApproval" = before at hboolean hkept ⊢
  generalize last.update = u
  have hnone : (∀ u ∈ received.map Received.update, decidesPendingApproval u = false) ↔
      (received.map Received.update).any decidesPendingApproval = false := by
    rw [List.any_eq_false]
    simp
  rw [hnone]
  cases hdecides : decidesPendingApproval u with
  | true =>
    rw [decidesPendingApproval, Bool.or_eq_true] at hdecides
    refine iff_of_true ?_ (.inl rfl)
    unfold nextPendingApproval
    rcases hdecides with hin | happroved
    · simp [hin, same_refl]
    · rw [happroved]
      cases hin : u.get "pendingApproval" <;> simp [same_refl]
  | false =>
    rw [decidesPendingApproval, Bool.or_eq_false_iff] at hdecides
    cases hbefore : before.any isBoolean with
    | true =>
      have hafter : after.any isBoolean = true := by rw [hboolean, hbefore, Bool.or_true]
      refine iff_of_true ?_ (.inr (.inl rfl))
      rw [nextPendingApproval, nextPendingApproval, hafter, hbefore]
      exact same_refl _
    | false =>
      rw [hbefore, Bool.or_false] at hboolean
      rw [← hboolean]
      cases hafter : after.any isBoolean with
      | false =>
        refine iff_of_true ?_ (.inr (.inr rfl))
        rw [hkept hafter]
        exact same_refl _
      | true =>
        refine iff_of_false ?_ (by simp)
        -- the instance says that approval is not pending, the fresh one says nothing
        rw [nextPendingApproval, nextPendingApproval, hafter, hbefore, hdecides.1, hdecides.2]
        intro hsame
        cases before with
        | none => cases hsame
        | some value =>
          cases value with
          | bool b => cases hbefore
          | null | num | str | arr | obj => simp [Same, sortKeysDeep] at hsame

/-! ### Replies -/

theorem isDeepEqual_iff (a b : Json) : isDeepEqual a b = true ↔ Same (some a) (some b) := by
  rw [isDeepEqual, beq_iff_eq, Same, Option.map_some, Option.map_some, Option.some.injEq]

variable (env received) in
/-- The replies that an instance has after updates, the page CIDs up to the order of members. -/
theorem replies_applyAll (hempty : this.replies = .empty) :
    let before := (received.map Received.update).reverse
    (applyAll env this received).replies.pages = shownPages env before ∧
      Same (some (applyAll env this received).replies.pageCids)
        (some (cidsAfter before.head?)) := by
  induction received using List.reverseRecOn with
  | nil =>
    rw [applyAll, List.foldl_nil, hempty]
    exact ⟨rfl, rfl⟩
  | append_singleton received r ih =>
    obtain ⟨hpages, hcids⟩ := ih
    dsimp only at hpages hcids ⊢
    rw [applyAll_append, replies_initCommentUpdate, List.map_append, List.reverse_append,
      List.map_singleton, List.reverse_singleton, List.singleton_append, List.head?_cons]
    -- the same page CIDs, whichever of the two are compared
    have hkeeps : r.update.pageCids.any
          (isDeepEqual (applyAll env this received).replies.pageCids) =
        keepsReplies (received.map Received.update).reverse.head? r.update := by
      rw [keepsReplies]
      cases r.update.pageCids with
      | none => rfl
      | some pageCids =>
        rw [Option.any_some, Option.any_some, Bool.eq_iff_iff, isDeepEqual_iff, isDeepEqual_iff,
          Same, Same, hcids]
    rw [hkeeps, shownPages, repliesFrom]
    cases hkeep : keepsReplies (received.map Received.update).reverse.head? r.update with
    | false => exact ⟨rfl, rfl⟩
    | true =>
      refine ⟨hpages, hcids.trans ?_⟩
      rw [keepsReplies] at hkeep
      rw [cidsAfter, cidsAfter, Option.bind_some]
      cases hown : r.update.pageCids with
      | none =>
        rw [hown] at hkeep
        cases hkeep
      | some pageCids =>
        rw [hown, Option.any_some, isDeepEqual_iff] at hkeep
        exact hkeep

variable (env) in
theorem shownPages_of_not_keeps (updates : List CommentUpdate) {last : CommentUpdate}
    (h : keepsReplies updates.head? last = false) :
    shownPages env (last :: updates) = pagesOf env last := by
  rw [shownPages, repliesFrom, h]
  rfl

variable (env received) in
theorem same_pages_iff (hempty : this.replies = .empty) {last last' : Received}
    (hlast : last.update = last'.update) :
    Same (some (applyAll env this (received ++ [last])).replies.pages)
        (some (applyAll env this [last']).replies.pages) ↔
      (keepsReplies (received.map Received.update).getLast? last.update = true ∨
          keepsReplies none last.update = true →
        Same (some (shownPages env (last.update :: (received.map Received.update).reverse)))
          (some (shownPages env [last.update]))) := by
  have hopen := (replies_applyAll env (received ++ [last]) hempty).1
  have hfresh := (replies_applyAll env [last'] hempty).1
  rw [List.map_append, List.reverse_append] at hopen
  rw [hopen, hfresh, ← List.head?_reverse]
  change Same (some (shownPages env (last.update :: (received.map Received.update).reverse)))
    (some (shownPages env [last'.update])) ↔ _
  rw [← hlast]
  refine ⟨fun h _ => h, fun h => ?_⟩
  by_cases hkeeps : keepsReplies (received.map Received.update).reverse.head? last.update = true ∨
      keepsReplies none last.update = true
  · exact h hkeeps
  · rw [not_or, Bool.not_eq_true, Bool.not_eq_true] at hkeeps
    rw [shownPages_of_not_keeps env _ hkeeps.1, shownPages_of_not_keeps env [] hkeeps.2]
    exact same_refl _

variable (env received) in
theorem same_pageCids (hempty : this.replies = .empty) {last last' : Received}
    (hlast : last.update = last'.update) :
    Same (some (applyAll env this (received ++ [last])).replies.pageCids)
      (some (applyAll env this [last']).replies.pageCids) := by
  have hopen := (replies_applyAll env (received ++ [last]) hempty).2
  have hfresh := (replies_applyAll env [last'] hempty).2
  rw [List.map_append, List.reverse_append] at hopen
  refine hopen.trans (Eq.trans ?_ hfresh.symm)
  change Same (some (cidsAfter (some last.update))) (some (cidsAfter (some last'.update)))
  rw [hlast]
  exact same_refl _

end Sequence

/-! ## The result -/

section Result

variable {env : Env} {cid : String} {cached : Option Bool} {comment : Fields} {this : Comment}

/-- A fresh instance has no replies yet. -/
theorem replies_fresh (hfresh : fresh env cid cached comment = some this) :
    this.replies = .empty := by
  rw [fresh, initIpfsProps] at hfresh
  obtain ⟨made, hmade, rfl⟩ := Option.map_eq_some_iff.1 hfresh
  rw [replies_setAuthorNameResolvedFromCache]
  unfold initProps at hmade
  dsimp only at hmade
  split at hmade
  · split at hmade <;> cases hmade
    rfl
  · cases hmade
    rfl

end Result

/-! ## An edit that is not there any more -/

def updatedAt (r : Received) : Rat :=
  match r.update.get "updatedAt" with
  | some (.num q) => q
  | _ => 0

/-- The fields that every update has. -/
def requiredFields (updatedAt : Rat) : Fields :=
  [("cid", .str "QmPost"), ("upvoteCount", .num 0), ("downvoteCount", .num 0),
    ("replyCount", .num 0), ("updatedAt", .num updatedAt), ("protocolVersion", .str "1.0.0"),
    ("signature", .obj [("publicKey", .str "community")])]

/-- The author has edited the content. -/
def withEdit : Received where
  update :=
    { fields := requiredFields 100 ++ [("edit", .obj [("content", .str "edited")])]
      replies_valid := fun _ h => by cases h
      updatedAt_valid := ⟨100, rfl⟩ }
  cached := none

/-- A later edit of the author says nothing about the content. -/
def withoutContent : Received where
  update :=
    { fields := requiredFields 200 ++ [("edit", .obj [("spoiler", .bool true)])]
      replies_valid := fun _ h => by cases h
      updatedAt_valid := ⟨200, rfl⟩ }
  cached := none

def post : Fields :=
  [("content", .str "original"), ("depth", .num 0), ("timestamp", .num 50),
    ("protocolVersion", .str "1.0.0"), ("signature", .obj [("publicKey", .str "author")])]

def plainEnv : Env where
  getPKCAddressFromPublicKeySync publicKey := publicKey
  shortifyAddress address := address
  parseRawPages pages := pages

end ShownUpdate
end Pkc

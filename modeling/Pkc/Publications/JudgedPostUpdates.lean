import Pkc.Library.Runs
import Pkc.Publish.PostUpdatesBuckets

/-!
# Skipping a post file that is judged already

A post that is being updated looks for its `CommentUpdate` in the folders of each record of its
community, one folder for every time bucket.  It remembers the file that it has judged last, by its
path and where it could be resolved by its CID, and does not fetch that file again; and it does not
look into the folders at all while the pages of the record hold the update that the post has.

* `State.markRecordPostUpdateJudgedIfItsPagesHoldTheHeldUpdate` is what is remembered from the pages
  of a record, `Lookup.tryRanges`, `State.resolveReturns`, `State.goesOn`, `State.fetchReturns` and
  `State.verifies` are a lookup from one `await` to the next.
* `Honest` is a community that publishes one file for the post with each record, and the same in
  the pages.  `Sound` says that nothing newer than what the post holds was skipped.
* What is remembered stands for a file that was read (`Judges`) in every state of a run
  (`skips_sound`), if what is taken from the pages is remembered for a folder that holds the post,
  and a gateway serves no older update than the one in the folder (`Ok`).

What a lookup returns is used in the same step: the continuation that uses it is queued before any
lookup ends that has seen what was remembered.
-/

set_option autoImplicit false

namespace Pkc
namespace JudgedPostUpdates

open Runs PostUpdatesBuckets

/-! ## What is published -/

structure CommentUpdate where
  updatedAt : Nat
  replyCount : Nat
deriving DecidableEq

/-- The content behind the `/ipfs` paths, which cannot change: the CID at a path and the
`CommentUpdate` with a CID. -/
structure Ipfs where
  cidAt : String → Option String
  cat : String → CommentUpdate

def Ipfs.fileAt (ipfs : Ipfs) (path : String) : Option CommentUpdate :=
  (ipfs.cidAt path).map ipfs.cat

structure PageComment where
  cid : String
  commentUpdate : CommentUpdate

structure CommunityRecord where
  /-- The CID of the folder of each bucket. -/
  postUpdates : Option (List (Int × String))
  /-- `posts.pages` -/
  pages : List (Option (List PageComment))

structure Post where
  cid : String
  timestamp : Int
  timestamp_pos : 0 < timestamp

def findCommentInPageInstance (pages : List (Option (List PageComment)))
    (targetCommentCid : String) : Option PageComment :=
  pages.findSome? fun page => page.bind fun comments =>
    comments.find? fun pageComment => pageComment.cid = targetCommentCid

/-- The buckets that the record has a folder for. -/
def CommunityRecord.buckets (record : CommunityRecord) : Option (List Int) :=
  record.postUpdates.map (List.map Prod.fst)

/-- `record.postUpdates[timestampRange]` in a template string. -/
def CommunityRecord.folderCid (record : CommunityRecord) (timestampRange : Int) : String :=
  ((record.postUpdates.getD []).lookup timestampRange).getD "undefined"

namespace Post

def calculatePathForPostCommentUpdate (post : Post) (folderCid : String) : String :=
  folderCid ++ "/" ++ post.cid ++ "/update"

/-- The path of the post in the folder of a bucket. -/
def path (post : Post) (record : CommunityRecord) (timestampRange : Int) : String :=
  post.calculatePathForPostCommentUpdate (record.folderCid timestampRange)

/-- The buckets to look into; the post has a timestamp, so it fails only without `postUpdates`. -/
def timestampRanges (post : Post) (record : CommunityRecord) (now : Int) : List Int :=
  match getPostUpdateTimestampRange record.buckets now post.timestamp with
  | .ok ranges => ranges
  | .error _ => []

end Post

/-- The update that was found in the pages of the community, the post and the parent. -/
def latestUpdate (updates : List (Option CommentUpdate)) : Option CommentUpdate :=
  (updates.reduceOption.insertionSort fun a b => b.updatedAt ≤ a.updatedAt).head?

/-! ## The post -/

/-- `_lastJudgedPostUpdate` -/
structure Judged where
  path : String
  cid : Option String
deriving DecidableEq

/-- Whether files are fetched with Kubo or Helia, or from gateways. -/
inductive Transport
  | p2p
  | gateways
deriving DecidableEq

inductive Phase
  /-- `_resolveIpfsPathToCid` has been called with this `judged` at hand. -/
  | resolving (judged : Option Judged)
  /-- `_isPostUpdateFileAlreadyJudged` has returned. -/
  | told (alreadyJudged : Bool) (cid : Option String)
  | fetching (cid : Option String)
  /-- `_throwIfCommentUpdateHasInvalidSignature` has been called. -/
  | verifying (cid : Option String) (commentUpdate : CommentUpdate)

/-- An invocation of `useCommunityPostUpdatesToFetchCommentUpdateForPost`. -/
structure Lookup where
  subIpfs : CommunityRecord
  timestampRange : Int
  /-- The buckets after this one. -/
  rest : List Int
  /-- Its signal. -/
  aborted : Bool
  phase : Phase

/-- A record whose folders were not looked into any further, and what the post held then. -/
structure Skip where
  record : CommunityRecord
  heldUpdatedAt : Nat

structure State where
  commentUpdate : Option CommentUpdate
  lastJudgedPostUpdate : Option Judged
  stopped : Bool
  /-- The lookups that were started; `none` is one that has ended. -/
  lookups : List (Option Lookup)
  skipped : List Skip

/-- A post that has not looked into any folder yet. -/
def fresh (commentUpdate : Option CommentUpdate) : State :=
  ⟨commentUpdate, none, false, [], []⟩

def Lookup.path (post : Post) (lookup : Lookup) : String :=
  post.path lookup.subIpfs lookup.timestampRange

/-- The loop over the buckets up to its first `await`; `none` is that it throws. -/
def Lookup.tryRanges (post : Post) (judged : Option Judged) (subIpfs : CommunityRecord)
    (aborted : Bool) : List Int → Option Lookup
  | [] => none
  | timestampRange :: rest =>
    if aborted then none
    else some ⟨subIpfs, timestampRange, rest, aborted,
      match judged with
      | some ⟨path, cid⟩ =>
        if path = post.path subIpfs timestampRange then .told true cid else .resolving judged
      | none => .resolving none⟩

namespace State

/-- `this._comment.raw.commentUpdate?.updatedAt || 0` -/
def heldUpdatedAt (s : State) : Nat := (s.commentUpdate.map CommentUpdate.updatedAt).getD 0

def isNotNewerThanHeldCommentUpdate (s : State) (commentUpdate : CommentUpdate) : Bool :=
  commentUpdate.updatedAt ≤ s.heldUpdatedAt

def useLoadedCommentUpdateIfNewInfo (commentUpdate : CommentUpdate) (s : State) : State :=
  if s.heldUpdatedAt < commentUpdate.updatedAt then { s with commentUpdate := some commentUpdate }
  else s

/-- The update in the pages that is newer than the held one is used. -/
def usePages (updates : List (Option CommentUpdate)) (s : State) : State :=
  match latestUpdate updates with
  | some commentUpdate => s.useLoadedCommentUpdateIfNewInfo commentUpdate
  | none => s

def skips (record : CommunityRecord) (s : State) : State :=
  { s with skipped := ⟨record, s.heldUpdatedAt⟩ :: s.skipped }

/-- Whether the pages of the record hold the held update. -/
def isHeldInPages (post : Post) (record : CommunityRecord) (s : State) : Bool :=
  match findCommentInPageInstance record.pages post.cid with
  | some inRecordPages =>
    s.commentUpdate.map CommentUpdate.updatedAt = some inRecordPages.commentUpdate.updatedAt
  | none => false

/-- `none` is that it returns false. -/
def markRecordPostUpdateJudgedIfItsPagesHoldTheHeldUpdate (post : Post) (record : CommunityRecord)
    (now : Int) (s : State) : Option State :=
  if record.postUpdates.isNone || !s.isHeldInPages post record then none
  else match post.timestampRanges record now with
    | [] => none
    | timestampRange :: _ =>
      let path := post.path record timestampRange
      let s := s.skips record
      if s.lastJudgedPostUpdate.map Judged.path = some path then some s
      else some { s with lastJudgedPostUpdate := some ⟨path, none⟩ }

/-- `_resetFreshHandlerAbortController`, and the signal of `stop`. -/
def abortLookups (s : State) : State :=
  { s with lookups := s.lookups.map (Option.map fun lookup => { lookup with aborted := true }) }

def useCommunityPostUpdatesToFetchCommentUpdateForPost (post : Post) (record : CommunityRecord)
    (now : Int) (s : State) : State :=
  let lookup :=
    Lookup.tryRanges post s.lastJudgedPostUpdate record false (post.timestampRanges record now)
  { s with lookups := s.lookups ++ [lookup] }

/-- The clock is read for the pages and for the lookup. -/
def handleUpdateEventFromCommunity (post : Post) (record : Option CommunityRecord)
    (updates : List (Option CommentUpdate)) (markedAt lookedUpAt : Int) (s : State) : State :=
  if s.stopped then s
  else match record with
    | none => s
    | some record =>
      let s := s.abortLookups
      let used := s.usePages updates
      match used.markRecordPostUpdateJudgedIfItsPagesHoldTheHeldUpdate post record markedAt with
      | some marked => marked
      | none =>
        -- an update from the pages is enough for this event
        if s.heldUpdatedAt < used.heldUpdatedAt then used
        else used.useCommunityPostUpdatesToFetchCommentUpdateForPost post record lookedUpAt

/-- The lookup with this index goes on, or has ended. -/
def put (i : Nat) (lookup : Option Lookup) (s : State) : State :=
  { s with lookups := s.lookups.set i lookup }

def judge (path : String) (cid : Option String) (s : State) : State :=
  { s with lastJudgedPostUpdate := some ⟨path, cid⟩ }

/-- The lookup with this index is where `f` goes on from. -/
def inLookup (i : Nat) (s : State) (f : Lookup → Option State) : Option State :=
  s.lookups[i]?.join.bind f

/-- The next bucket is tried, unless the lookup is superseded. -/
def nextRange (post : Post) (i : Nat) (lookup : Lookup) (s : State) : State :=
  s.put i (Lookup.tryRanges post s.lastJudgedPostUpdate lookup.subIpfs lookup.aborted lookup.rest)

end State

/-- How `_resolveIpfsPathToCid` ends. -/
inductive Resolved
  | cid (cid : Option String)
  | timedOut

/-- How a fetch ends: `invalid` is a problem with what was fetched, not with fetching it. -/
inductive Fetched
  | body (commentUpdate : CommentUpdate)
  | failed
  | invalid

namespace State

/-- A gateway is not asked for the CID. -/
def resolveReturns (ipfs : Ipfs) (transport : Transport) (post : Post) (i : Nat)
    (resolved : Resolved) (s : State) : Option State :=
  s.inLookup i fun lookup =>
    match lookup.phase, resolved with
    | .resolving _, .timedOut =>
      if transport = .p2p then some (s.nextRange post i lookup) else none
    | .resolving _, .cid none => some (s.put i (some { lookup with phase := .told false none }))
    | .resolving judged, .cid (some cid) =>
      if transport = .p2p ∧ ipfs.cidAt (lookup.path post) = some cid then
        if judged.bind Judged.cid = some cid then
          some ((s.judge (lookup.path post) (some cid)).put i
            (some { lookup with phase := .told true (some cid) }))
        else some (s.put i (some { lookup with phase := .told false (some cid) }))
      else none
    | _, _ => none

/-- After `_isPostUpdateFileAlreadyJudged`. -/
def goesOn (i : Nat) (s : State) : Option State :=
  s.inLookup i fun lookup =>
    match lookup.phase with
    | .told alreadyJudged cid =>
      if lookup.aborted then some (s.put i none)
      else if alreadyJudged then some ((s.skips lookup.subIpfs).put i none)
      else some (s.put i (some { lookup with phase := .fetching cid }))
    | _ => none

/-- What comes over P2P is checked against the CID of the folder, what a gateway serves is not,
but its signature is verified before it counts as fetched. -/
def fetchReturns (ipfs : Ipfs) (transport : Transport) (post : Post) (i : Nat) (fetched : Fetched)
    (s : State) : Option State :=
  s.inLookup i fun lookup =>
    match lookup.phase, fetched, transport with
    | .fetching cid, .body commentUpdate, .p2p =>
      if ipfs.fileAt (lookup.path post) = some commentUpdate then
        if s.isNotNewerThanHeldCommentUpdate commentUpdate then
          some ((s.judge (lookup.path post) cid).put i none)
        else some (s.put i (some { lookup with phase := .verifying cid commentUpdate }))
      else none
    | .fetching cid, .body commentUpdate, .gateways =>
      some (((s.judge (lookup.path post) cid).useLoadedCommentUpdateIfNewInfo commentUpdate).put
        i none)
    | .fetching _, .failed, _ => some (s.nextRange post i lookup)
    | .fetching _, .invalid, _ => some (s.put i none)
    | _, _, _ => none

/-- The signature is verified, or is not valid. -/
def verifies (post : Post) (i : Nat) (valid : Bool) (s : State) : Option State :=
  s.inLookup i fun lookup =>
    match lookup.phase with
    | .verifying cid commentUpdate =>
      if valid then
        some (((s.judge (lookup.path post) cid).useLoadedCommentUpdateIfNewInfo commentUpdate).put
          i none)
      else some (s.put i none)
    | _ => none

end State

inductive Action
  /-- `updates` is what is found in the pages of the instances that are tracked. -/
  | updateEvent (record : Option CommunityRecord) (updates : List (Option CommentUpdate))
      (markedAt lookedUpAt : Int)
  | resolveReturns (i : Nat) (resolved : Resolved)
  | goesOn (i : Nat)
  | fetchReturns (i : Nat) (fetched : Fetched)
  | verifies (i : Nat) (valid : Bool)
  /-- A newer update comes from elsewhere, such as an ancestor's pages. -/
  | holds (commentUpdate : CommentUpdate)
  | stop
  | update

def step (ipfs : Ipfs) (transport : Transport) (post : Post) (s : State) : Action → Option State
  | .updateEvent record updates markedAt lookedUpAt =>
    some (s.handleUpdateEventFromCommunity post record updates markedAt lookedUpAt)
  | .resolveReturns i resolved => s.resolveReturns ipfs transport post i resolved
  | .goesOn i => s.goesOn i
  | .fetchReturns i fetched => s.fetchReturns ipfs transport post i fetched
  | .verifies i valid => s.verifies post i valid
  | .holds commentUpdate => some (s.useLoadedCommentUpdateIfNewInfo commentUpdate)
  | .stop => some { s.abortLookups with stopped := true }
  | .update => some { s with stopped := false }

/-! ## An honest community -/

/-- The record publishes `commentUpdate` for the post: in the folder of one bucket, and if the post
is in its pages, in these. -/
structure Publishes (ipfs : Ipfs) (post : Post) (record : CommunityRecord)
    (commentUpdate : CommentUpdate) : Prop where
  inFolder : ∃ bucket ∈ record.buckets.getD [],
    ipfs.fileAt (post.path record bucket) = some commentUpdate
  once : ∀ bucket ∈ record.buckets.getD [], ∀ bucket' ∈ record.buckets.getD [],
    (ipfs.fileAt (post.path record bucket)).isSome →
      (ipfs.fileAt (post.path record bucket')).isSome → bucket = bucket'
  inPages : ∀ page, some page ∈ record.pages → ∀ pageComment ∈ page,
    pageComment.cid = post.cid → pageComment.commentUpdate = commentUpdate

/-- The records of the community in their order, each with what it publishes for the post. -/
structure Honest (ipfs : Ipfs) (post : Post)
    (published : List (CommunityRecord × CommentUpdate)) : Prop where
  publishes : ∀ e ∈ published, Publishes ipfs post e.1 e.2
  increases : published.Pairwise fun e e' => e.2 ≠ e'.2 → e.2.updatedAt < e'.2.updatedAt

/-- Nothing newer than what the post holds was skipped. -/
def Sound (published : List (CommunityRecord × CommentUpdate)) (s : State) : Prop :=
  ∀ skip ∈ s.skipped, ∀ e ∈ published, e.1 = skip.record → e.2.updatedAt ≤ skip.heldUpdatedAt

/-- The post is given the records of the community. -/
def Delivers (published : List (CommunityRecord × CommentUpdate)) : Action → Prop
  | .updateEvent (some record) _ _ _ => ∃ e ∈ published, e.1 = record
  | _ => True

/-- Besides, when what the post holds is in the pages, the first bucket has the post in its folder,
and the update that a gateway serves is not older than the one at the path. -/
def Ok (ipfs : Ipfs) (transport : Transport) (post : Post)
    (published : List (CommunityRecord × CommentUpdate)) (s : State) : Action → Prop
  | .updateEvent (some record) updates markedAt _ => (∃ e ∈ published, e.1 = record) ∧
    ((s.usePages updates).isHeldInPages post record → ∀ bucket rest,
      post.timestampRanges record markedAt = bucket :: rest →
        (ipfs.fileAt (post.path record bucket)).isSome)
  | .fetchReturns i (.body commentUpdate) => transport = .gateways →
    ∀ lookup, s.lookups[i]?.join = some lookup → ∃ file,
      ipfs.fileAt (lookup.path post) = some file ∧ file.updatedAt ≤ commentUpdate.updatedAt
  | _ => True

theorem Publishes.eq_of_fileAt {ipfs : Ipfs} {post : Post} {record : CommunityRecord}
    {commentUpdate file : CommentUpdate} {bucket : Int}
    (h : Publishes ipfs post record commentUpdate) (hbucket : bucket ∈ record.buckets.getD [])
    (hfile : ipfs.fileAt (post.path record bucket) = some file) : commentUpdate = file := by
  obtain ⟨bucket', hbucket', hfile'⟩ := h.inFolder
  have heq := h.once _ hbucket _ hbucket' (by rw [hfile]; rfl) (by rw [hfile']; rfl)
  rw [heq, hfile', Option.some.injEq] at hfile
  exact hfile

theorem Publishes.eq_of_findCommentInPageInstance {ipfs : Ipfs} {post : Post}
    {record : CommunityRecord} {commentUpdate : CommentUpdate} {pageComment : PageComment}
    (h : Publishes ipfs post record commentUpdate)
    (hfound : findCommentInPageInstance record.pages post.cid = some pageComment) :
    pageComment.commentUpdate = commentUpdate := by
  obtain ⟨page, hpage, hfound⟩ := List.exists_of_findSome?_eq_some hfound
  obtain ⟨comments, rfl, hfound⟩ := Option.bind_eq_some_iff.1 hfound
  exact h.inPages _ hpage _ (List.mem_of_find?_eq_some hfound)
    (by simpa using List.find?_some hfound)

theorem mem_buckets_of_timestampRanges {post : Post} {record : CommunityRecord} {now bucket : Int}
    (h : bucket ∈ post.timestampRanges record now) : bucket ∈ record.buckets.getD [] := by
  rw [Post.timestampRanges] at h
  cases hbuckets : record.buckets with
  | none => rw [hbuckets] at h; cases h
  | some buckets =>
    rw [hbuckets] at h
    simp only [getPostUpdateTimestampRange, post.timestamp_pos.ne', if_false] at h
    exact (List.mem_insertionSort _).1 (List.mem_filter.1 h).1

/-! ## What is remembered -/

/-- At the path is a file that is not newer than the one held. -/
def Judges (ipfs : Ipfs) (path : String) (heldUpdatedAt : Nat) : Prop :=
  ∃ file, ipfs.fileAt path = some file ∧ file.updatedAt ≤ heldUpdatedAt

structure Judged.Sound (ipfs : Ipfs) (heldUpdatedAt : Nat) (judged : Judged) : Prop where
  path : Judges ipfs judged.path heldUpdatedAt
  cid : ∀ cid, judged.cid = some cid → (ipfs.cat cid).updatedAt ≤ heldUpdatedAt

/-- The CID that was resolved, if any, is the one at the path. -/
def Resolves (ipfs : Ipfs) (path : String) (cid : Option String) : Prop :=
  ∀ c, cid = some c → ipfs.cidAt path = some c

/-- What is known of the path at each `await`. -/
def Phase.Sound (ipfs : Ipfs) (path : String) (heldUpdatedAt : Nat) : Phase → Prop
  | .resolving judged => ∀ j, judged = some j → j.Sound ipfs heldUpdatedAt
  | .told true _ => Judges ipfs path heldUpdatedAt
  | .told false cid => Resolves ipfs path cid
  | .fetching cid => Resolves ipfs path cid
  | .verifying cid commentUpdate =>
    Resolves ipfs path cid ∧ ipfs.fileAt path = some commentUpdate

structure Lookup.Sound (ipfs : Ipfs) (post : Post)
    (published : List (CommunityRecord × CommentUpdate)) (heldUpdatedAt : Nat) (lookup : Lookup) :
    Prop where
  published : ∃ e ∈ published, e.1 = lookup.subIpfs
  bucket : lookup.timestampRange ∈ lookup.subIpfs.buckets.getD []
  rest : ∀ bucket ∈ lookup.rest, bucket ∈ lookup.subIpfs.buckets.getD []
  phase : lookup.phase.Sound ipfs (lookup.path post) heldUpdatedAt

structure Inv (ipfs : Ipfs) (post : Post) (published : List (CommunityRecord × CommentUpdate))
    (s : State) : Prop where
  judged : ∀ judged, s.lastJudgedPostUpdate = some judged → judged.Sound ipfs s.heldUpdatedAt
  lookups : ∀ lookup, some lookup ∈ s.lookups →
    lookup.Sound ipfs post published s.heldUpdatedAt
  skipped : Sound published s

section Invariant

variable {ipfs : Ipfs} {transport : Transport} {post : Post}
  {published : List (CommunityRecord × CommentUpdate)} {s s' : State} {held held' : Nat}

theorem Judges.mono {path : String} (h : Judges ipfs path held) (hle : held ≤ held') :
    Judges ipfs path held' := by
  obtain ⟨file, hfile, hold⟩ := h
  exact ⟨file, hfile, hold.trans hle⟩

theorem Judged.Sound.mono {judged : Judged} (h : judged.Sound ipfs held) (hle : held ≤ held') :
    judged.Sound ipfs held' :=
  ⟨h.path.mono hle, fun cid hcid => (h.cid cid hcid).trans hle⟩

theorem Phase.Sound.mono {path : String} {phase : Phase} (h : phase.Sound ipfs path held)
    (hle : held ≤ held') : phase.Sound ipfs path held' := by
  cases phase with
  | resolving judged => exact fun j hj => (h j hj).mono hle
  | told alreadyJudged cid =>
    cases alreadyJudged with
    | true => exact Judges.mono h hle
    | false => exact h
  | fetching cid => exact h
  | verifying cid commentUpdate => exact h

theorem Lookup.Sound.mono {lookup : Lookup} (h : lookup.Sound ipfs post published held)
    (hle : held ≤ held') : lookup.Sound ipfs post published held' :=
  ⟨h.published, h.bucket, h.rest, h.phase.mono hle⟩

/-- The CID at a path and the file at it have the same `updatedAt`. -/
theorem Resolves.judged {path : String} {cid : Option String} {file : CommentUpdate}
    (h : Resolves ipfs path cid) (hfile : ipfs.fileAt path = some file)
    (hold : file.updatedAt ≤ held) : Judged.Sound ipfs held ⟨path, cid⟩ where
  path := ⟨file, hfile, hold⟩
  cid c hc := by
    rw [Ipfs.fileAt, h c hc, Option.map_some, Option.some.injEq] at hfile
    exact hfile ▸ hold

/-- **What is judged is what the record publishes**, as it publishes just one file. -/
theorem le_of_judges (honest : Honest ipfs post published) {record : CommunityRecord} {bucket : Int}
    (hbucket : bucket ∈ record.buckets.getD []) (h : Judges ipfs (post.path record bucket) held) :
    ∀ e ∈ published, e.1 = record → e.2.updatedAt ≤ held := by
  rintro e he rfl
  obtain ⟨file, hfile, hold⟩ := h
  rw [(honest.publishes e he).eq_of_fileAt hbucket hfile]
  exact hold

/-! ### The operations -/

theorem le_heldUpdatedAt_use (s : State) (commentUpdate : CommentUpdate) :
    s.heldUpdatedAt ≤ (s.useLoadedCommentUpdateIfNewInfo commentUpdate).heldUpdatedAt := by
  rw [State.useLoadedCommentUpdateIfNewInfo]
  split
  · rename_i hnewer
    exact hnewer.le
  · exact le_rfl

theorem updatedAt_le_heldUpdatedAt_use (s : State) (commentUpdate : CommentUpdate) :
    commentUpdate.updatedAt ≤ (s.useLoadedCommentUpdateIfNewInfo commentUpdate).heldUpdatedAt := by
  rw [State.useLoadedCommentUpdateIfNewInfo]
  split
  · exact le_rfl
  · rename_i hnewer
    exact not_lt.1 hnewer

/-- Using an update changes what is held and nothing else. -/
theorem use_frame (s : State) (commentUpdate : CommentUpdate) :
    (s.useLoadedCommentUpdateIfNewInfo commentUpdate).lastJudgedPostUpdate
      = s.lastJudgedPostUpdate ∧
    (s.useLoadedCommentUpdateIfNewInfo commentUpdate).lookups = s.lookups ∧
    (s.useLoadedCommentUpdateIfNewInfo commentUpdate).skipped = s.skipped := by
  rw [State.useLoadedCommentUpdateIfNewInfo]
  split <;> exact ⟨rfl, rfl, rfl⟩

/-- What leaves the held update alone can be done before or after one is used. -/
theorem use_comm (f : State → State) (commentUpdate : CommentUpdate)
    (hf : ∀ held, f { s with commentUpdate := held } = { f s with commentUpdate := held })
    (hheld : (f s).commentUpdate = s.commentUpdate) :
    (f s).useLoadedCommentUpdateIfNewInfo commentUpdate
      = f (s.useLoadedCommentUpdateIfNewInfo commentUpdate) := by
  rw [State.useLoadedCommentUpdateIfNewInfo, State.useLoadedCommentUpdateIfNewInfo,
    State.heldUpdatedAt, State.heldUpdatedAt, hheld, apply_ite f]
  exact if_congr Iff.rfl (hf _).symm rfl

theorem Inv.use (h : Inv ipfs post published s) (commentUpdate : CommentUpdate) :
    Inv ipfs post published (s.useLoadedCommentUpdateIfNewInfo commentUpdate) := by
  have hle := le_heldUpdatedAt_use s commentUpdate
  obtain ⟨hjudged, hlookups, hskipped⟩ := use_frame s commentUpdate
  exact
    { judged := fun judged hj => (h.judged judged (hjudged ▸ hj)).mono hle
      lookups := fun lookup hl => (h.lookups lookup (hlookups ▸ hl)).mono hle
      skipped := fun skip hs => h.skipped skip (hskipped ▸ hs) }

theorem Inv.usePages (h : Inv ipfs post published s) (updates : List (Option CommentUpdate)) :
    Inv ipfs post published (s.usePages updates) := by
  rw [State.usePages]
  split
  · exact h.use _
  · exact h

theorem Inv.skips (h : Inv ipfs post published s) {record : CommunityRecord}
    (hle : ∀ e ∈ published, e.1 = record → e.2.updatedAt ≤ s.heldUpdatedAt) :
    Inv ipfs post published (s.skips record) where
  __ := h
  skipped skip hskip := by
    rcases List.mem_cons.1 hskip with rfl | hskip
    · exact hle
    · exact h.skipped skip hskip

theorem Inv.judge (h : Inv ipfs post published s) {path : String} {cid : Option String}
    (hjudged : Judged.Sound ipfs s.heldUpdatedAt ⟨path, cid⟩) :
    Inv ipfs post published (s.judge path cid) where
  __ := h
  judged judged hj := by
    rw [State.judge, Option.some.injEq] at hj
    exact hj ▸ hjudged

theorem Inv.put (h : Inv ipfs post published s) (i : Nat) {lookup : Option Lookup}
    (hlookup : ∀ l, lookup = some l → l.Sound ipfs post published s.heldUpdatedAt) :
    Inv ipfs post published (s.put i lookup) where
  __ := h
  lookups l hl := by
    rcases List.mem_or_eq_of_mem_set hl with hl | hl
    · exact h.lookups l hl
    · exact hlookup l hl.symm

theorem Inv.ends (h : Inv ipfs post published s) (i : Nat) :
    Inv ipfs post published (s.put i none) :=
  h.put i fun _ hl => by cases hl

theorem Inv.abortLookups (h : Inv ipfs post published s) :
    Inv ipfs post published s.abortLookups where
  __ := h
  lookups l hl := by
    obtain ⟨l', hl', heq⟩ := List.mem_map.1 hl
    obtain ⟨l', rfl, rfl⟩ := Option.map_eq_some_iff.1 heq
    have hsound := h.lookups l' hl'
    exact ⟨hsound.published, hsound.bucket, hsound.rest, hsound.phase⟩

/-- The next path is told to be judged only if it is the one that is remembered. -/
theorem tryRanges_sound {judged : Option Judged} {record : CommunityRecord} {aborted : Bool}
    {buckets : List Int} {lookup : Lookup}
    (hjudged : ∀ j, judged = some j → j.Sound ipfs held) (hrecord : ∃ e ∈ published, e.1 = record)
    (hbuckets : ∀ bucket ∈ buckets, bucket ∈ record.buckets.getD [])
    (h : Lookup.tryRanges post judged record aborted buckets = some lookup) :
    lookup.Sound ipfs post published held := by
  cases buckets with
  | nil => cases h
  | cons bucket rest =>
    simp only [Lookup.tryRanges] at h
    split at h
    · cases h
    · cases h
      refine ⟨hrecord, hbuckets _ (List.mem_cons_self ..),
        fun b hb => hbuckets b (List.mem_cons_of_mem _ hb), ?_⟩
      cases judged with
      | none => exact fun j hj => by cases hj
      | some judged =>
        dsimp only
        split
        · rename_i heq
          have hpath := (hjudged judged rfl).path
          rw [heq] at hpath
          exact hpath
        · exact hjudged

theorem Inv.nextRange (h : Inv ipfs post published s) {i : Nat} {lookup : Lookup}
    (hlookup : some lookup ∈ s.lookups) :
    Inv ipfs post published (s.nextRange post i lookup) :=
  h.put i fun _ hl => tryRanges_sound h.judged (h.lookups lookup hlookup).published
    (h.lookups lookup hlookup).rest hl

theorem mem_lookups_of_join {i : Nat} {lookup : Lookup}
    (h : s.lookups[i]?.join = some lookup) : some lookup ∈ s.lookups :=
  List.mem_of_getElem? (Option.join_eq_some_iff.1 h)

/-- A lookup goes on in another phase. -/
theorem Lookup.Sound.withPhase {lookup : Lookup} (h : lookup.Sound ipfs post published held)
    {phase : Phase} (hphase : phase.Sound ipfs (lookup.path post) held) :
    ({ lookup with phase := phase } : Lookup).Sound ipfs post published held :=
  ⟨h.published, h.bucket, h.rest, hphase⟩

theorem Inv.goesOnIn (h : Inv ipfs post published s) {i : Nat} {lookup : Lookup} {phase : Phase}
    (hlookup : some lookup ∈ s.lookups)
    (hphase : phase.Sound ipfs (lookup.path post) s.heldUpdatedAt) :
    Inv ipfs post published (s.put i (some { lookup with phase := phase })) :=
  h.put i fun l hl => by
    cases hl
    exact (h.lookups lookup hlookup).withPhase hphase

/-! ### The steps -/

theorem inv_fresh (commentUpdate : Option CommentUpdate) :
    Inv ipfs post published (fresh commentUpdate) where
  judged := fun _ h => by cases h
  lookups := fun _ h => by cases h
  skipped := fun _ h => by cases h

theorem Inv.startLookup (h : Inv ipfs post published s) {record : CommunityRecord}
    (hrecord : ∃ e ∈ published, e.1 = record) (now : Int) :
    Inv ipfs post published
      (s.useCommunityPostUpdatesToFetchCommentUpdateForPost post record now) where
  __ := h
  lookups l hl := by
    rcases List.mem_append.1 hl with hl | hl
    · exact h.lookups l hl
    · exact tryRanges_sound h.judged hrecord (fun _ hb => mem_buckets_of_timestampRanges hb)
        (List.mem_singleton.1 hl).symm

/-- Aborting the lookups does not change what the pages are compared with. -/
theorem usePages_abortLookups (s : State) (updates : List (Option CommentUpdate)) :
    s.abortLookups.usePages updates = (s.usePages updates).abortLookups := by
  rw [State.usePages, State.usePages]
  split
  · exact use_comm _ _ (fun _ => rfl) rfl
  · rfl

/-- The page of an honest record has what its folder has, so what is held is not older. -/
theorem Inv.mark (h : Inv ipfs post published s) (honest : Honest ipfs post published)
    {record : CommunityRecord} {now : Int} (hrecord : ∃ e ∈ published, e.1 = record)
    (hfirst : s.isHeldInPages post record → ∀ bucket rest,
      post.timestampRanges record now = bucket :: rest →
        (ipfs.fileAt (post.path record bucket)).isSome)
    (hmark : s.markRecordPostUpdateJudgedIfItsPagesHoldTheHeldUpdate post record now = some s') :
    Inv ipfs post published s' := by
  rw [State.markRecordPostUpdateJudgedIfItsPagesHoldTheHeldUpdate] at hmark
  split at hmark
  · cases hmark
  rename_i hpages
  have hpages : s.isHeldInPages post record = true := by
    rw [Bool.or_eq_true, not_or, Bool.not_eq_true', Bool.not_eq_false] at hpages
    exact hpages.2
  split at hmark
  · cases hmark
  rename_i bucket rest hranges
  obtain ⟨e, he, rfl⟩ := hrecord
  have hpublishes := honest.publishes e he
  have hbucket := mem_buckets_of_timestampRanges (hranges ▸ List.mem_cons_self ..)
  obtain ⟨file, hfile⟩ := Option.isSome_iff_exists.1 (hfirst hpages bucket rest hranges)
  have hheld : e.2.updatedAt ≤ s.heldUpdatedAt := by
    rw [State.isHeldInPages] at hpages
    split at hpages
    · rename_i pageComment hfound
      rw [← hpublishes.eq_of_findCommentInPageInstance hfound, State.heldUpdatedAt,
        of_decide_eq_true hpages]
      exact le_rfl
    · cases hpages
  have hjudges : Judges ipfs (post.path e.1 bucket) s.heldUpdatedAt :=
    ⟨file, hfile, hpublishes.eq_of_fileAt hbucket hfile ▸ hheld⟩
  have hskips := h.skips (le_of_judges honest hbucket hjudges)
  dsimp only at hmark
  split at hmark
  · cases hmark
    exact hskips
  · cases hmark
    exact hskips.judge ⟨hjudges, fun _ hc => by cases hc⟩

theorem Inv.updateEvent (h : Inv ipfs post published s) (honest : Honest ipfs post published)
    {record : Option CommunityRecord} {updates : List (Option CommentUpdate)}
    {markedAt lookedUpAt : Int}
    (hok : Ok ipfs transport post published s (.updateEvent record updates markedAt lookedUpAt)) :
    Inv ipfs post published
      (s.handleUpdateEventFromCommunity post record updates markedAt lookedUpAt) := by
  cases record with
  | none =>
    simp only [State.handleUpdateEventFromCommunity, ite_self]
    exact h
  | some record =>
    obtain ⟨hrecord, hfirst⟩ := hok
    have hused := h.abortLookups.usePages updates
    simp only [State.handleUpdateEventFromCommunity]
    split
    · exact h
    split
    · rename_i marked hmark
      refine hused.mark honest hrecord (fun hpages => hfirst ?_) hmark
      rw [usePages_abortLookups] at hpages
      exact hpages
    · split
      · exact hused
      · exact hused.startLookup hrecord lookedUpAt

/-- What a step of a lookup begins with. -/
theorem inLookup_eq_some {i : Nat} {f : Lookup → Option State} (h : s.inLookup i f = some s') :
    ∃ lookup, s.lookups[i]?.join = some lookup ∧ f lookup = some s' :=
  Option.bind_eq_some_iff.1 h

theorem Inv.resolveReturns (h : Inv ipfs post published s) {i : Nat} {resolved : Resolved}
    (hstep : s.resolveReturns ipfs transport post i resolved = some s') :
    Inv ipfs post published s' := by
  replace hstep := inLookup_eq_some hstep
  obtain ⟨lookup, hlookup, hstep⟩ := hstep
  have hmem := mem_lookups_of_join hlookup
  have hphase := (h.lookups lookup hmem).phase
  split at hstep
  · split at hstep
    · cases hstep
      exact h.nextRange hmem
    · cases hstep
  · cases hstep
    exact h.goesOnIn hmem fun _ hc => by cases hc
  · rename_i judged cid hresolving
    split at hstep
    rotate_left
    · cases hstep
    rename_i hcid
    have hresolves : Resolves ipfs (lookup.path post) (some cid) := fun c hc => hc ▸ hcid.2
    split at hstep
    · rename_i hequal
      cases hstep
      obtain ⟨j, rfl, hj⟩ := Option.bind_eq_some_iff.1 hequal
      rw [hresolving] at hphase
      have hfile : ipfs.fileAt (lookup.path post) = some (ipfs.cat cid) := by
        rw [Ipfs.fileAt, hcid.2, Option.map_some]
      have hold := (hphase j rfl).cid cid hj
      exact (h.judge (hresolves.judged hfile hold)).goesOnIn hmem ⟨_, hfile, hold⟩
    · cases hstep
      exact h.goesOnIn hmem hresolves
  · cases hstep

theorem Inv.goesOn (h : Inv ipfs post published s) (honest : Honest ipfs post published) {i : Nat}
    (hstep : s.goesOn i = some s') : Inv ipfs post published s' := by
  replace hstep := inLookup_eq_some hstep
  obtain ⟨lookup, hlookup, hstep⟩ := hstep
  have hmem := mem_lookups_of_join hlookup
  have hsound := h.lookups lookup hmem
  have hphase := hsound.phase
  split at hstep
  rotate_left
  · cases hstep
  rename_i alreadyJudged cid htold
  rw [htold] at hphase
  split at hstep
  · cases hstep
    exact h.ends i
  split at hstep <;> rename_i hjudged
  · cases hstep
    rw [hjudged] at hphase
    exact (h.skips (le_of_judges honest hsound.bucket hphase)).ends i
  · cases hstep
    rw [Bool.not_eq_true] at hjudged
    rw [hjudged] at hphase
    exact h.goesOnIn hmem hphase

/-- An update is remembered as judged and is used at once. -/
theorem Inv.judgeAndUse (h : Inv ipfs post published s) {path : String} {cid : Option String}
    {file commentUpdate : CommentUpdate} (hcid : Resolves ipfs path cid)
    (hfile : ipfs.fileAt path = some file) (hold : file.updatedAt ≤ commentUpdate.updatedAt) :
    Inv ipfs post published
      ((s.judge path cid).useLoadedCommentUpdateIfNewInfo commentUpdate) := by
  have hused := (h.use commentUpdate).judge (hcid.judged hfile
    (hold.trans (updatedAt_le_heldUpdatedAt_use s commentUpdate)))
  -- the order of the two makes no difference to the state after both
  have hcomm : (s.judge path cid).useLoadedCommentUpdateIfNewInfo commentUpdate
      = (s.useLoadedCommentUpdateIfNewInfo commentUpdate).judge path cid :=
    use_comm (State.judge path cid) _ (fun _ => rfl) rfl
  exact hcomm ▸ hused

theorem Inv.fetchReturns (h : Inv ipfs post published s) {i : Nat} {fetched : Fetched}
    (hok : Ok ipfs transport post published s (.fetchReturns i fetched))
    (hstep : s.fetchReturns ipfs transport post i fetched = some s') :
    Inv ipfs post published s' := by
  replace hstep := inLookup_eq_some hstep
  obtain ⟨lookup, hlookup, hstep⟩ := hstep
  have hmem := mem_lookups_of_join hlookup
  have hphase := (h.lookups lookup hmem).phase
  split at hstep
  · rename_i cid commentUpdate hfetching
    rw [hfetching] at hphase
    split at hstep
    rotate_left
    · cases hstep
    rename_i hfile
    split at hstep
    · rename_i hnotNewer
      cases hstep
      exact (h.judge (Resolves.judged hphase hfile (of_decide_eq_true hnotNewer))).ends i
    · cases hstep
      exact h.goesOnIn hmem ⟨hphase, hfile⟩
  · rename_i cid commentUpdate hfetching
    rw [hfetching] at hphase
    cases hstep
    obtain ⟨file, hfile, hold⟩ := hok rfl lookup hlookup
    exact (h.judgeAndUse hphase hfile hold).ends i
  · cases hstep
    exact h.nextRange hmem
  · cases hstep
    exact h.ends i
  · cases hstep

theorem Inv.verifies (h : Inv ipfs post published s) {i : Nat} {valid : Bool}
    (hstep : s.verifies post i valid = some s') : Inv ipfs post published s' := by
  replace hstep := inLookup_eq_some hstep
  obtain ⟨lookup, hlookup, hstep⟩ := hstep
  have hphase := (h.lookups lookup (mem_lookups_of_join hlookup)).phase
  split at hstep
  · rename_i cid commentUpdate hverifying
    rw [hverifying] at hphase
    split at hstep
    · cases hstep
      exact (h.judgeAndUse hphase.1 hphase.2 le_rfl).ends i
    · cases hstep
      exact h.ends i
  · cases hstep

theorem inv_step (honest : Honest ipfs post published) (s : State) (action : Action) (s' : State)
    (h : Inv ipfs post published s) (hok : Ok ipfs transport post published s action)
    (hstep : step ipfs transport post s action = some s') : Inv ipfs post published s' := by
  cases action with
  | updateEvent record updates markedAt lookedUpAt =>
    cases hstep
    exact h.updateEvent honest hok
  | resolveReturns i resolved => exact h.resolveReturns hstep
  | goesOn i => exact h.goesOn honest hstep
  | fetchReturns i fetched => exact h.fetchReturns hok hstep
  | verifies i valid => exact h.verifies hstep
  | holds commentUpdate =>
    cases hstep
    exact h.use commentUpdate
  | stop =>
    cases hstep
    exact ⟨h.abortLookups.judged, h.abortLookups.lookups, h.skipped⟩
  | update =>
    cases hstep
    exact ⟨h.judged, h.lookups, h.skipped⟩

end Invariant

/-! ## What is skipped -/

/-- **Skipping a file that is judged already is sound**, in a run in which what is taken from the
pages is remembered for a folder that has the post, and no gateway serves an older update than the
one at the path that it is asked for. -/
theorem skips_sound {ipfs : Ipfs} {transport : Transport} {post : Post}
    {published : List (CommunityRecord × CommentUpdate)} {commentUpdate : Option CommentUpdate}
    {actions : List Action} {s : State} (honest : Honest ipfs post published)
    (hrun : Run (step ipfs transport post) (Ok ipfs transport post published)
      (fresh commentUpdate) actions s) : Sound published s :=
  hrun.invariant_of (fun _ h => h.skipped) (inv_step honest) (inv_fresh commentUpdate)

/-! ### A post in another bucket -/

section Example

def post : Post := ⟨"post", 1000000, by decide⟩

def older : CommentUpdate := ⟨2000000, 0⟩

def newer : CommentUpdate := ⟨2000100, 1⟩

def ipfs : Ipfs where
  cidAt path :=
    if path = "week/post/update" then some "older"
    else if path = "laterWeek/post/update" then some "newer"
    else none
  cat cid := if cid = "older" then older else newer

/-- Nothing of the post is in the folder of the day. -/
def first : CommunityRecord :=
  ⟨some [(86400, "day"), (604800, "week")], [some [⟨"post", older⟩]]⟩

def unchanged : CommunityRecord := ⟨some [(86400, "day"), (604800, "week")], []⟩

def later : CommunityRecord := ⟨some [(86400, "day"), (604800, "laterWeek")], []⟩

def event (record : CommunityRecord) (updates : List (Option CommentUpdate)) (now : Int) :
    Action :=
  .updateEvent (some record) updates now now

theorem publishes_first : Publishes ipfs post first older where
  inFolder := ⟨604800, by decide, by decide⟩
  once := by decide
  inPages := by
    intro page hpage pageComment hmem _
    cases List.mem_singleton.1 hpage
    cases List.mem_singleton.1 hmem
    rfl

theorem publishes_unchanged : Publishes ipfs post unchanged older where
  inFolder := ⟨604800, by decide, by decide⟩
  once := by decide
  inPages _ hpage := by cases hpage

theorem publishes_later : Publishes ipfs post later newer where
  inFolder := ⟨604800, by decide, by decide⟩
  once := by decide
  inPages _ hpage := by cases hpage

theorem honest_unchanged : Honest ipfs post [(first, older), (unchanged, older)] where
  publishes := by
    rintro e (_ | ⟨_, _ | ⟨_, ⟨⟩⟩⟩)
    · exact publishes_first
    · exact publishes_unchanged
  increases := .cons (by rintro e (_ | ⟨_, ⟨⟩⟩) hne; exact absurd rfl hne) (.cons (by simp) .nil)

theorem honest_later : Honest ipfs post [(first, older), (later, newer)] where
  publishes := by
    rintro e (_ | ⟨_, _ | ⟨_, ⟨⟩⟩⟩)
    · exact publishes_first
    · exact publishes_later
  increases := .cons (by rintro e (_ | ⟨_, ⟨⟩⟩) _; decide) (.cons (by simp) .nil)

/-- The post is in the folder of the week for the reader, too, and it is skipped twice. -/
theorem sound_of_two_records : ∃ s,
    Run (step ipfs .p2p post) (Ok ipfs .p2p post [(first, older), (unchanged, older)])
      (fresh none) [event first [some older] 1100000, event unchanged [] 1100000, .goesOn 0] s ∧
    s.skipped.length = 2 ∧ Sound [(first, older), (unchanged, older)] s := by
  have hrun : Run (step ipfs .p2p post) (Ok ipfs .p2p post [(first, older), (unchanged, older)])
      (fresh none) [event first [some older] 1100000, event unchanged [] 1100000, .goesOn 0] _ :=
    .cons ⟨⟨_, List.mem_cons_self .., rfl⟩, fun _ bucket rest h => by
        cases h
        decide⟩ rfl
      (.cons ⟨⟨_, List.mem_cons_of_mem _ (List.mem_cons_self ..), rfl⟩, fun h => by cases h⟩ rfl
        (.cons trivial rfl (.nil _)))
  exact ⟨_, hrun, rfl, skips_sound honest_unchanged hrun⟩

/-- To a reader whose clock is behind, the post belongs into the folder of the day.  The page of the
first record has it remember that folder, and the update in the later record is never read. -/
theorem not_sound_of_clock_behind : ∃ s,
    Run (step ipfs .p2p post) (fun _ => Delivers [(first, older), (later, newer)])
      (fresh none) [event first [some older] 1000500, event later [] 1000600, .goesOn 0] s ∧
    Honest ipfs post [(first, older), (later, newer)] ∧
    ¬ Sound [(first, older), (later, newer)] s :=
  ⟨_, .cons ⟨_, List.mem_cons_self .., rfl⟩ rfl
      (.cons ⟨_, List.mem_cons_of_mem _ (List.mem_cons_self ..), rfl⟩ rfl
        (.cons trivial rfl (.nil _))),
    honest_later,
    fun h => absurd (h _ (List.mem_cons_self ..) _ (List.mem_cons_of_mem _ (List.mem_cons_self ..))
      rfl) (by decide)⟩

end Example

end JudgedPostUpdates
end Pkc

import Mathlib.Data.List.MinMax
import Pkc.Community.IdentityRule
import Pkc.Library.ForestWalk
import Pkc.Library.GroupedReads
import Pkc.Library.Json
import Pkc.Library.Results

/-!
# The replies that a sort is given

A sort of posts may ask for all replies below a post.  They are looked up in a list of replies, by
following the parents.  The list could be that of all replies of the community; to have less of it
in memory at once, it is the one of a batch of posts, and is loaded when the first of them is asked
for.

* `createDescendantsLookup` is the look-up, with the number of rounds that its loop may take.
* `ask` is what is loaded and looked up when a post is asked for.  The rows of a batch are pushed as
  the arguments of one call, and an engine takes only so many of them.
* `streamed_eq`: in whatever order the posts are asked for, the replies are those of the whole list
  if and only if the batches that are loaded are small enough for such a call.  The whole list gives
  each of the descendants once, and the loop ends.

A `Board` is what the database can hold: a reply is stored below a comment that is stored, one level
deeper and with the same post.  The statements have no `ORDER BY`.  `Queries` takes what SQLite's
plans for them do, which is no documented order: the replies of one post come in the order of their
rows, those of different posts in any order.
-/

set_option autoImplicit false

namespace Pkc
namespace StreamedReplies

open ForestWalk GroupedReads IdentityRule Results

abbrev Cid := String

/-! ## The database -/

structure CommentsTableRow (α : Type) where
  cid : Cid
  parentCid : Option Cid
  postCid : Cid
  depth : Nat
  communityPublicKey : Option String
  communityName : Option String
  pendingApproval : Bool
  /-- The other columns that a sort is given. -/
  other : α

structure CommentUpdatesRow (β : Type) where
  cid : Cid
  /-- `edit.deleted` -/
  deleted : Option Bool
  removed : Option Bool
  approved : Option Bool
  other : β

structure Board (α β : Type) where
  comments : List (CommentsTableRow α)
  commentUpdates : List (CommentUpdatesRow β)
  nodup : (comments.map CommentsTableRow.cid).Nodup
  nonempty : ∀ c ∈ comments, c.cid ≠ ""
  ofPost : ∀ c ∈ comments, c.parentCid = none → c.depth = 0 ∧ c.postCid = c.cid
  ofReply : ∀ c ∈ comments, ∀ cid, c.parentCid = some cid →
    ∃ parent ∈ comments, parent.cid = cid ∧ c.depth = parent.depth + 1 ∧ c.postCid = parent.postCid

variable {α β : Type}

namespace Board

/-- Any row, below a comment that is stored or below none. -/
def store (b : Board α β) (row : CommentsTableRow α) (hcid : row.cid ≠ "")
    (hnew : ∀ c ∈ b.comments, c.cid ≠ row.cid)
    (parent : Option {c : CommentsTableRow α // c ∈ b.comments}) : Board α β :=
  let stored : CommentsTableRow α :=
    match parent with
    | none => { row with parentCid := none, depth := 0, postCid := row.cid }
    | some parent =>
      { row with
        parentCid := some parent.1.cid
        depth := parent.1.depth + 1
        postCid := parent.1.postCid }
  have hstored : stored.cid = row.cid := by cases parent <;> rfl
  { b with
    comments := b.comments ++ [stored]
    nodup := by
      rw [List.map_append, List.map_singleton, hstored]
      refine List.nodup_append'.2 ⟨b.nodup, List.nodup_singleton _, fun cid hold hlast => ?_⟩
      obtain ⟨c, hc, rfl⟩ := List.mem_map.1 hold
      exact hnew c hc (List.mem_singleton.1 hlast)
    nonempty := by
      intro c hc
      rcases List.mem_append.1 hc with hc | hc
      · exact b.nonempty c hc
      · rw [List.mem_singleton.1 hc, hstored]
        exact hcid
    ofPost := by
      intro c hc hparent
      rcases List.mem_append.1 hc with hc | hc
      · exact b.ofPost c hc hparent
      · obtain rfl := List.mem_singleton.1 hc
        cases parent with
        | none => exact ⟨rfl, rfl⟩
        | some parent => cases hparent
    ofReply := by
      intro c hc cid hparent
      rcases List.mem_append.1 hc with hc | hc
      · obtain ⟨p, hp, hrest⟩ := b.ofReply c hc cid hparent
        exact ⟨p, List.mem_append_left _ hp, hrest⟩
      · obtain rfl := List.mem_singleton.1 hc
        cases parent with
        | none => cases hparent
        | some parent =>
          exact ⟨parent.1, List.mem_append_left _ parent.2, Option.some.inj hparent, rfl, rfl⟩ }

end Board

/-! ## Entries -/

/-- What a sort is given of a reply. -/
structure PageSortReplyEntry (α β : Type) where
  parentCid : Option Cid
  postCid : Cid
  depth : Nat
  communityPublicKey : Option String
  communityName : Option String
  comment : α
  cid : Cid
  deleted : Option Bool
  removed : Option Bool
  approved : Option Bool
  pendingApproval : Option Bool
  commentUpdate : β
  /-- The pages that are nested in the CommentUpdate. -/
  replies : Option Json

def entry (c : CommentsTableRow α) (row : CommentUpdatesRow β) : PageSortReplyEntry α β where
  parentCid := c.parentCid
  postCid := c.postCid
  depth := c.depth
  communityPublicKey := c.communityPublicKey
  communityName := c.communityName
  comment := c.other
  cid := c.cid
  deleted := if row.deleted = some true then some true else none
  removed := row.removed
  approved := row.approved
  pendingApproval := if c.pendingApproval then some true else none
  commentUpdate := row.other
  replies := none

/-- The replies with a CommentUpdate, in the order of their rows. -/
def Board.entries (b : Board α β) : List (PageSortReplyEntry α β) :=
  b.comments.filterMap fun c =>
    if 0 < c.depth then (b.commentUpdates.find? (·.cid = c.cid)).map (entry c) else none

inductive Scope
  | all
  | posts (postCids : List Cid)

def Scope.admits : Scope → PageSortReplyEntry α β → Bool
  | all, _ => true
  | posts postCids, e => e.postCid ∈ postCids

/-- The statements of `_queryRepliesForPageSort`.  They have no `ORDER BY`: that the replies below
one post come in the order of their rows is what SQLite does, with or without the index on
`postCid`, and not what it documents. -/
structure Board.Queries (b : Board α β) where
  queryReplies : Scope → List (PageSortReplyEntry α β)
  byRowid : ∀ scope post, (queryReplies scope).filter (·.postCid = post) =
    b.entries.filter fun e => scope.admits e && e.postCid = post

variable {b : Board α β}

def maxVariables : Nat := 4096

/-- Of all posts, or of some; `argumentLimit` is the number of arguments that the engine lets a call
have. -/
def Board.Queries.queryAllRepliesForPageSort (q : b.Queries) (argumentLimit : Nat) :
    Option (List Cid) → Except RangeError (List (PageSortReplyEntry α β))
  | none => .ok (q.queryReplies .all)
  | some postCids => (slices maxVariables postCids.length postCids).foldlM (fun entries batch =>
      -- `entries.push(...rows)`
      if argumentLimit < (q.queryReplies (.posts batch)).length then
        .error .maximumCallStackSizeExceeded
      else .ok (entries ++ q.queryReplies (.posts batch))) []

structure Exclusions where
  excludeRemovedComments : Bool
  excludeDeletedComments : Bool
  excludeCommentWithApprovedFalse : Bool
  excludeCommentPendingApproval : Bool

section Rule

variable (lower : LowerCase) (communityAddress : String)

def belongsToCommunity (e : PageSortReplyEntry α β) : Bool :=
  createCommunityIdentityRowFilter lower communityAddress
    ⟨e.communityPublicKey, e.communityName, none, nofun⟩

def applyPageSortExclusions (exclusions : Exclusions) (comments : List (PageSortReplyEntry α β)) :
    List (PageSortReplyEntry α β) :=
  comments.filter fun e =>
    if !belongsToCommunity lower communityAddress e then false
    else if exclusions.excludeRemovedComments && e.removed = some true then false
    else if exclusions.excludeDeletedComments && e.deleted = some true then false
    else if exclusions.excludeCommentWithApprovedFalse && e.approved = some false then false
    else if exclusions.excludeCommentPendingApproval && e.pendingApproval = some true then false
    else true

def filterRepliesForPageSort (replies : List (PageSortReplyEntry α β)) :
    List (PageSortReplyEntry α β) :=
  applyPageSortExclusions lower communityAddress ⟨false, false, false, false⟩ replies

end Rule

/-! ## Looking up -/

def stripRepliesFromPageComment (e : PageSortReplyEntry α β) : PageSortReplyEntry α β :=
  { e with replies := none }

/-- `childrenByParent`, where an empty `parentCid` is none. -/
def childrenByParent (replies : List (PageSortReplyEntry α β)) (cid : Cid) :
    List (PageSortReplyEntry α β) :=
  (replies.map stripRepliesFromPageComment).filter fun e => e.parentCid = some cid && cid ≠ ""

/-- `none` when the loop does not end in that many rounds. -/
def createDescendantsLookup (rounds : Nat) (replies : List (PageSortReplyEntry α β)) (cid : Cid) :
    Option (List (PageSortReplyEntry α β)) :=
  walk PageSortReplyEntry.cid (childrenByParent replies) rounds [cid] []

/-! ## Streaming -/

/-- What the provider has loaded. -/
structure Batch (α β : Type) where
  batchStart : Nat
  batchEnd : Nat
  replies : List (PageSortReplyEntry α β)

/-- The last place of the post, which is the one that the map has. -/
def indexOf (ordered : List Cid) (cid : Cid) : Option Nat :=
  (List.range ordered.length).reverse.find? fun index => ordered[index]? = some cid

def serializeBatch : Nat := 256

section Provider

variable (q : b.Queries) (lower : LowerCase) (communityAddress : String) (ordered : List Cid)
  (argumentLimit : Nat)

def loadBatch (index : Nat) : Except RangeError (Batch α β) :=
  (q.queryAllRepliesForPageSort argumentLimit
    (some ((ordered.drop index).take serializeBatch))).map fun replies =>
      { batchStart := index
        batchEnd := min (index + serializeBatch) ordered.length
        replies := filterRepliesForPageSort lower communityAddress replies }

/-- `_createStreamingRepliesProvider` -/
def ask (rounds : Nat) (held : Option (Batch α β)) (cid : Cid) :
    Except RangeError (Option (Batch α β) × Option (List (PageSortReplyEntry α β))) :=
  match indexOf ordered cid with
  | none => .ok (held, some [])
  | some index =>
    let batch :=
      match held with
      | none => loadBatch q lower communityAddress ordered argumentLimit index
      | some batch =>
        if index < batch.batchStart || batch.batchEnd ≤ index then
          loadBatch q lower communityAddress ordered argumentLimit index
        else .ok batch
    batch.map fun batch => (some batch, createDescendantsLookup rounds batch.replies cid)

/-- The posts are asked for one after the other.  The sort is given up when one of the calls
throws. -/
def askAll (rounds : Nat) : Option (Batch α β) → List Cid →
    Except RangeError (List (Option (List (PageSortReplyEntry α β))))
  | _, [] => .ok []
  | held, cid :: asked =>
    (ask q lower communityAddress ordered argumentLimit rounds held cid).bind fun (held, replies) =>
      (askAll rounds held asked).map (replies :: ·)

/-- The list over all replies of the community. -/
def wholeLookup (rounds : Nat) (cid : Cid) : Option (List (PageSortReplyEntry α β)) :=
  createDescendantsLookup rounds
    (filterRepliesForPageSort lower communityAddress (q.queryReplies .all)) cid

end Provider

/-- The replies of the community to a comment: the rows of `comments` below it that have a row in
`comment_updates`. -/
def Board.children (b : Board α β) (lower : LowerCase) (communityAddress : String) (cid : Cid) :
    List (PageSortReplyEntry α β) :=
  b.comments.filterMap fun c =>
    if c.parentCid = some cid && createCommunityIdentityRowFilter lower communityAddress
        ⟨c.communityPublicKey, c.communityName, none, nofun⟩ then
      (b.commentUpdates.find? (·.cid = c.cid)).map (entry c)
    else none

/-- The number of replies below some posts that have a CommentUpdate. -/
def Board.repliesBelow (b : Board α β) (postCids : List Cid) : Nat :=
  b.comments.countP fun c =>
    0 < c.depth && c.postCid ∈ postCids && b.commentUpdates.any (·.cid = c.cid)

/-- Where the batches begin that are loaded when the posts are asked for in an order. -/
def batchStarts (ordered : List Cid) : Option Nat → List Cid → List Nat
  | _, [] => []
  | start, cid :: asked =>
    match indexOf ordered cid with
    | none => batchStarts ordered start asked
    | some index =>
      if start.any fun start => start ≤ index && index < start + serializeBatch then
        batchStarts ordered start asked
      else index :: batchStarts ordered (some index) asked

/-- No batch that is loaded has more replies than a call takes arguments. -/
def FewReplies (b : Board α β) (argumentLimit : Nat) (ordered asked : List Cid) : Prop :=
  ∀ start ∈ batchStarts ordered none asked,
    b.repliesBelow ((ordered.drop start).take serializeBatch) ≤ argumentLimit

instance (b : Board α β) (argumentLimit : Nat) (ordered asked : List Cid) :
    Decidable (FewReplies b argumentLimit ordered asked) :=
  inferInstanceAs (Decidable (∀ start ∈ batchStarts ordered none asked,
    b.repliesBelow ((ordered.drop start).take serializeBatch) ≤ argumentLimit))

/-! ## The rows of a board -/

section Entries

variable {e e' : PageSortReplyEntry α β} {c c' : CommentsTableRow α}

theorem Board.eq_of_cid (hc : c ∈ b.comments) (hc' : c' ∈ b.comments)
    (h : c.cid = c'.cid) : c = c' :=
  List.inj_on_of_nodup_map b.nodup hc hc' h

theorem entry_of_option (h : (if 0 < c.depth then
    (b.commentUpdates.find? (·.cid = c.cid)).map (entry c) else none) = some e) :
    ∃ row : CommentUpdatesRow β, entry c row = e := by
  split at h
  · obtain ⟨row, -, rfl⟩ := Option.map_eq_some_iff.1 h
    exact ⟨row, rfl⟩
  · cases h

theorem exists_row (h : e ∈ b.entries) :
    ∃ c ∈ b.comments, ∃ row : CommentUpdatesRow β, entry c row = e := by
  obtain ⟨c, hc, hentry⟩ := List.mem_filterMap.1 h
  exact ⟨c, hc, entry_of_option hentry⟩

theorem nodup_entries : (b.entries.map PageSortReplyEntry.cid).Nodup := by
  have hsublist : ∀ rows : List (CommentsTableRow α), List.Sublist
      ((rows.filterMap fun c => if 0 < c.depth then
        (b.commentUpdates.find? (·.cid = c.cid)).map (entry c) else none).map PageSortReplyEntry.cid)
      (rows.map CommentsTableRow.cid) := by
    intro rows
    induction rows with
    | nil => exact .slnil
    | cons c rows ih =>
      rw [List.filterMap_cons, List.map_cons]
      split
      · exact ih.cons _
      · rename_i e hentry
        obtain ⟨row, rfl⟩ := entry_of_option hentry
        exact ih.cons_cons _
  exact b.nodup.sublist (hsublist b.comments)

/-- A reply is below a comment that is stored, one level deeper and with the same post. -/
theorem exists_parent (h : e ∈ b.entries) {cid : Cid} (hparent : e.parentCid = some cid) :
    ∃ parent ∈ b.comments, parent.cid = cid ∧ e.depth = parent.depth + 1 ∧
      e.postCid = parent.postCid := by
  obtain ⟨c, hc, row, rfl⟩ := exists_row h
  exact b.ofReply c hc cid hparent

theorem postCid_eq_of_parent (h : e ∈ b.entries) (h' : e' ∈ b.entries) {cid : Cid}
    (hparent : e.parentCid = some cid) (hparent' : e'.parentCid = some cid) :
    e.postCid = e'.postCid := by
  obtain ⟨c, hc, hcid, -, hpost⟩ := exists_parent h hparent
  obtain ⟨c', hc', hcid', -, hpost'⟩ := exists_parent h' hparent'
  rw [hpost, hpost', b.eq_of_cid hc hc' (hcid.trans hcid'.symm)]

theorem mem_queryReplies {q : b.Queries} {scope : Scope} (h : e ∈ q.queryReplies scope) :
    e ∈ b.entries ∧ scope.admits e = true := by
  have hmem : e ∈ (q.queryReplies scope).filter (·.postCid = e.postCid) :=
    List.mem_filter.2 ⟨h, by simp⟩
  rw [q.byRowid] at hmem
  obtain ⟨hentries, hadmits⟩ := List.mem_filter.1 hmem
  exact ⟨hentries, (Bool.and_eq_true_iff.1 hadmits).1⟩

end Entries

/-! ## Children -/

section Children

variable {lower : LowerCase} {communityAddress : String} {cid : Cid}

theorem filterRepliesForPageSort_eq (replies : List (PageSortReplyEntry α β)) :
    filterRepliesForPageSort lower communityAddress replies =
      replies.filter (belongsToCommunity lower communityAddress) := by
  rw [filterRepliesForPageSort, applyPageSortExclusions]
  refine List.filter_congr fun e _ => ?_
  cases belongsToCommunity lower communityAddress e <;> rfl

/-- A list in which the replies to a comment all are, in the order of their rows. -/
theorem filter_parent_eq {q : b.Queries} {scope : Scope}
    (hadmits : ∀ e ∈ b.entries, e.parentCid = some cid → scope.admits e = true) :
    (q.queryReplies scope).filter (·.parentCid = some cid) =
      b.entries.filter (·.parentCid = some cid) := by
  by_cases hsome : ∃ e ∈ b.entries, e.parentCid = some cid
  · obtain ⟨e₀, he₀, hparent₀⟩ := hsome
    have hpost : ∀ e ∈ b.entries, e.parentCid = some cid → e.postCid = e₀.postCid :=
      fun e he hparent => postCid_eq_of_parent he he₀ hparent hparent₀
    have hrows : (q.queryReplies scope).filter (·.parentCid = some cid) =
        ((q.queryReplies scope).filter (·.postCid = e₀.postCid)).filter (·.parentCid = some cid) := by
      rw [List.filter_filter]
      refine List.filter_congr fun e he => ?_
      by_cases hparent : e.parentCid = some cid
      · simp [hparent, hpost e (mem_queryReplies he).1 hparent]
      · simp [hparent]
    rw [hrows, q.byRowid, List.filter_filter]
    refine List.filter_congr fun e he => ?_
    by_cases hparent : e.parentCid = some cid
    · simp [hparent, hpost e he hparent, hadmits e he hparent]
    · simp [hparent]
  · have hnone : ∀ e ∈ b.entries, ¬ e.parentCid = some cid := fun e he hparent =>
      hsome ⟨e, he, hparent⟩
    rw [List.filter_eq_nil_iff.2 fun e he => by simpa using hnone e (mem_queryReplies he).1,
      List.filter_eq_nil_iff.2 fun e he => by simpa using hnone e he]

/-- The replies to a comment are entries. -/
theorem children_eq : b.children lower communityAddress cid =
    ((b.entries.filter (belongsToCommunity lower communityAddress)).map
      stripRepliesFromPageComment).filter (·.parentCid = some cid) := by
  rw [Board.children, Board.entries, List.filter_filterMap, List.map_filterMap,
    List.filter_filterMap]
  refine List.filterMap_congr fun c hc => ?_
  by_cases hparent : c.parentCid = some cid
  · obtain ⟨parent, -, -, hdepth, -⟩ := b.ofReply c hc cid hparent
    have hreply : 0 < c.depth := by omega
    rw [if_pos hreply]
    cases b.commentUpdates.find? (·.cid = c.cid) with
    | none => simp
    | some row =>
      cases hcommunity : createCommunityIdentityRowFilter lower communityAddress
          ⟨c.communityPublicKey, c.communityName, none, nofun⟩ <;>
        simp [hparent, hcommunity, entry, belongsToCommunity, Option.filter,
          stripRepliesFromPageComment]
  · rw [if_neg (by simp [hparent])]
    split
    · cases b.commentUpdates.find? (·.cid = c.cid) with
      | none => simp
      | some row =>
        have hstripped : stripRepliesFromPageComment (entry c row) = entry c row := rfl
        have hentry : (entry c row).parentCid = c.parentCid := rfl
        cases hcommunity : belongsToCommunity lower communityAddress (entry c row) <;>
          simp [hparent, hcommunity, Option.filter, hstripped, hentry]
    · simp

theorem childrenByParent_eq {q : b.Queries} {scope : Scope}
    (hadmits : ∀ e ∈ b.entries, e.parentCid = some cid → scope.admits e = true) :
    childrenByParent (filterRepliesForPageSort lower communityAddress (q.queryReplies scope)) cid =
      b.children lower communityAddress cid := by
  have hcommute : ∀ replies : List (PageSortReplyEntry α β),
      ((replies.filter (belongsToCommunity lower communityAddress)).map
        stripRepliesFromPageComment).filter (·.parentCid = some cid) =
      ((replies.filter (·.parentCid = some cid)).filter
        (belongsToCommunity lower communityAddress)).map stripRepliesFromPageComment := by
    intro replies
    rw [List.filter_map, List.filter_filter, List.filter_filter]
    exact congrArg _ (List.filter_congr fun e _ => Bool.and_comm _ _)
  rw [children_eq, hcommute, ← filter_parent_eq (q := q) hadmits, ← hcommute,
    filterRepliesForPageSort_eq, childrenByParent]
  refine List.filter_congr fun e he => ?_
  by_cases hparent : e.parentCid = some cid
  · obtain ⟨e₀, he₀, rfl⟩ := List.mem_map.1 he
    obtain ⟨c, hc, rfl, -⟩ := exists_parent (mem_queryReplies (List.mem_filter.1 he₀).1).1 hparent
    simp [hparent, b.nonempty c hc]
  · simp [hparent]

theorem of_mem_children {e : PageSortReplyEntry α β}
    (h : e ∈ b.children lower communityAddress cid) :
    e.replies = none ∧ ∃ e₀ ∈ b.entries, e₀.parentCid = some cid ∧ e₀.cid = e.cid ∧
      stripRepliesFromPageComment e₀ = e := by
  rw [children_eq] at h
  obtain ⟨hmem, hparent⟩ := List.mem_filter.1 h
  obtain ⟨e₀, he₀, rfl⟩ := List.mem_map.1 hmem
  exact ⟨rfl, e₀, (List.mem_filter.1 he₀).1, of_decide_eq_true hparent, rfl, rfl⟩

theorem exists_row_of_child {e : PageSortReplyEntry α β}
    (h : e ∈ b.children lower communityAddress cid) :
    ∃ parent ∈ b.comments, ∃ c ∈ b.comments, parent.cid = cid ∧ c.cid = e.cid ∧
      c.parentCid = some cid ∧ c.depth = parent.depth + 1 ∧ c.postCid = parent.postCid := by
  obtain ⟨-, e₀, he₀, hparent, hcid, -⟩ := of_mem_children h
  obtain ⟨c, hc, row, rfl⟩ := exists_row he₀
  obtain ⟨parent, hp, hpcid, hdepth, hpost⟩ := b.ofReply c hc cid hparent
  exact ⟨parent, hp, c, hc, hpcid, hcid, hparent, hdepth, hpost⟩

/-- How far the deepest comment is below this one, at most. -/
def Board.height (b : Board α β) (cid : Cid) : Nat :=
  match b.comments.find? (·.cid = cid) with
  | some c => (b.comments.map CommentsTableRow.depth).foldr max 0 + 1 - c.depth
  | none => 0

theorem height_eq {c : CommentsTableRow α} (hc : c ∈ b.comments) :
    b.height c.cid = (b.comments.map CommentsTableRow.depth).foldr max 0 + 1 - c.depth := by
  rw [Board.height]
  cases hfind : b.comments.find? (·.cid = c.cid) with
  | none => simpa using List.find?_eq_none.1 hfind c hc
  | some found =>
    have hcid : found.cid = c.cid := by simpa using List.find?_some hfind
    rw [b.eq_of_cid (List.mem_of_find?_eq_some hfind) hc hcid]

theorem depth_le {c : CommentsTableRow α} (hc : c ∈ b.comments) :
    c.depth ≤ (b.comments.map CommentsTableRow.depth).foldr max 0 :=
  List.le_max_of_le' 0 (List.mem_map_of_mem hc) le_rfl

theorem falls_children :
    Falls PageSortReplyEntry.cid (b.children lower communityAddress) b.height := by
  intro cid e he
  obtain ⟨parent, hp, c, hc, rfl, hcid, -, hdepth, -⟩ := exists_row_of_child he
  have hle := depth_le hc
  rw [← hcid, height_eq hc, height_eq hp]
  omega

theorem oneParent_children :
    OneParent PageSortReplyEntry.cid (b.children lower communityAddress) where
  nodup cid := by
    rw [children_eq, List.filter_map, List.map_map]
    exact nodup_entries.sublist ((List.filter_sublist.trans List.filter_sublist).map _)
  eq cid cid' e he e' he' heq := by
    obtain ⟨-, -, c, hc, -, hcid, hparent, -, -⟩ := exists_row_of_child he
    obtain ⟨-, -, c', hc', -, hcid', hparent', -, -⟩ := exists_row_of_child he'
    obtain rfl := b.eq_of_cid hc hc' (hcid.trans (heq.trans hcid'.symm))
    exact Option.some.inj (hparent.symm.trans hparent')

end Children

/-! ## Batches -/

section Batches

variable {q : b.Queries} {lower : LowerCase} {communityAddress : String} {ordered : List Cid}
  {cid : Cid} {index argumentLimit : Nat}

theorem slices_eq {κ : Type} {items : List κ} {max : Nat} (h : items.length ≤ max) :
    slices max items.length items = if items.length = 0 then [] else [items] := by
  cases items with
  | nil => rfl
  | cons item items =>
    rw [List.length_cons, slices, List.take_of_length_le h, List.drop_of_length_le h]
    cases items <;> rfl

/-- A statement gives as many rows as there are replies below its posts. -/
theorem length_queryReplies (q : b.Queries) (postCids : List Cid) :
    (q.queryReplies (.posts postCids)).length = b.repliesBelow postCids := by
  classical
  have hperm : (q.queryReplies (.posts postCids)).Perm
      (b.entries.filter (Scope.posts postCids).admits) := by
    refine List.perm_iff_count.2 fun e => ?_
    have hcount : ∀ l : List (PageSortReplyEntry α β),
        l.count e = (l.filter (·.postCid = e.postCid)).count e := fun l =>
      (List.count_filter (p := fun e' : PageSortReplyEntry α β => e'.postCid = e.postCid)
        (by simp)).symm
    rw [hcount, q.byRowid, hcount (b.entries.filter (Scope.posts postCids).admits),
      List.filter_filter]
    exact congrArg _ (List.filter_congr fun _ _ => Bool.and_comm _ _)
  rw [hperm.length_eq, ← List.countP_eq_length_filter, Board.entries, List.countP_filterMap]
  refine List.countP_congr fun c hc => ?_
  rw [← List.isSome_find?]
  cases b.commentUpdates.find? (·.cid = c.cid) with
  | none => simp
  | some row =>
    by_cases hreply : 0 < c.depth
    · simp [hreply, Scope.admits, entry]
    · simp [hreply]

/-- A batch that is loaded. -/
def batchAt (q : b.Queries) (lower : LowerCase) (communityAddress : String) (ordered : List Cid)
    (start : Nat) : Batch α β where
  batchStart := start
  batchEnd := min (start + serializeBatch) ordered.length
  replies := filterRepliesForPageSort lower communityAddress
    (q.queryReplies (.posts ((ordered.drop start).take serializeBatch)))

variable (q lower communityAddress argumentLimit)

/-- A batch is loaded with one statement. -/
theorem loadBatch_eq (h : index < ordered.length) :
    loadBatch q lower communityAddress ordered argumentLimit index =
      if b.repliesBelow ((ordered.drop index).take serializeBatch) ≤ argumentLimit then
        .ok (batchAt q lower communityAddress ordered index)
      else .error .maximumCallStackSizeExceeded := by
  have hlength : ((ordered.drop index).take serializeBatch).length ≤ maxVariables :=
    Nat.le_trans (List.length_take_le _ _) (by decide)
  have hpos : ((ordered.drop index).take serializeBatch).length ≠ 0 := by
    rw [List.length_take, List.length_drop, serializeBatch]
    omega
  rw [loadBatch, Board.Queries.queryAllRepliesForPageSort, slices_eq hlength, if_neg hpos,
    List.foldlM_cons, length_queryReplies]
  by_cases hfew : b.repliesBelow ((ordered.drop index).take serializeBatch) ≤ argumentLimit
  · rw [if_pos hfew, if_neg (not_lt.2 hfew)]
    rfl
  · rw [if_neg hfew, if_pos (not_le.1 hfew)]
    rfl

variable {q lower communityAddress argumentLimit}

theorem indexOf_spec (h : indexOf ordered cid = some index) : ordered[index]? = some cid := by
  simpa using List.find?_some h

theorem indexOf_of_mem (h : cid ∈ ordered) : ∃ index, indexOf ordered cid = some index := by
  obtain ⟨index, hlt, heq⟩ := List.getElem_of_mem h
  refine Option.isSome_iff_exists.1 (List.find?_isSome.2 ⟨index, ?_, ?_⟩)
  · exact List.mem_reverse.2 (List.mem_range.2 hlt)
  · rw [decide_eq_true_eq, List.getElem?_eq_getElem hlt, heq]

/-- The comments below a post have it as their post. -/
def Under (b : Board α β) (post : Cid) (cid : Cid) : Prop :=
  ∃ c ∈ b.comments, c.cid = cid ∧ c.postCid = post

theorem childrenByParent_all (q : b.Queries) :
    childrenByParent (filterRepliesForPageSort lower communityAddress (q.queryReplies .all)) =
      b.children lower communityAddress :=
  funext fun _ => childrenByParent_eq fun _ _ _ => rfl

/-- **A batch that has the post gives the replies of the whole list.** -/
theorem lookup_eq {postCids : List Cid} (hmem : cid ∈ postCids) (hunder : Under b cid cid)
    (rounds : Nat) :
    createDescendantsLookup rounds
        (filterRepliesForPageSort lower communityAddress (q.queryReplies (.posts postCids))) cid =
      wholeLookup q lower communityAddress rounds cid := by
  have hkids : ∀ cid', Under b cid cid' → childrenByParent (filterRepliesForPageSort lower
      communityAddress (q.queryReplies (.posts postCids))) cid' =
        b.children lower communityAddress cid' := by
    rintro cid' ⟨c, hc, rfl, hpost⟩
    refine childrenByParent_eq fun e he hparent => ?_
    obtain ⟨parent, hp, heq, -, hpost'⟩ := exists_parent he hparent
    rw [b.eq_of_cid hp hc heq, hpost] at hpost'
    simpa [Scope.admits, hpost'] using hmem
  refine walk_congr (S := Under b cid) (fun cid' hcid' => ?_) (fun cid' hcid' e he => ?_)
    fun cid' hcid' => by rwa [List.mem_singleton.1 hcid']
  · rw [hkids cid' hcid', childrenByParent_all]
  · rw [hkids cid' hcid'] at he
    obtain ⟨parent, hp, c, hc, heq, hcid, -, -, hpost⟩ := exists_row_of_child he
    obtain ⟨c', hc', heq', hpost'⟩ := hcid'
    rw [b.eq_of_cid hp hc' (heq.trans heq'.symm), hpost'] at hpost
    exact ⟨c, hc, hcid, hpost⟩

/-- A batch gives the replies of the whole list to the posts that it has. -/
theorem lookup_batchAt (hposts : ∀ cid ∈ ordered, ∃ c ∈ b.comments, c.cid = cid ∧ c.parentCid = none)
    {start : Nat} (hindex : indexOf ordered cid = some index) (hle : start ≤ index)
    (hreach : index < start + serializeBatch) (rounds : Nat) :
    createDescendantsLookup rounds (batchAt q lower communityAddress ordered start).replies cid =
      wholeLookup q lower communityAddress rounds cid := by
  have hat := indexOf_spec hindex
  have hunder : Under b cid cid := by
    obtain ⟨c, hc, rfl, hparent⟩ := hposts cid (List.mem_of_getElem? hat)
    exact ⟨c, hc, rfl, (b.ofPost c hc hparent).2⟩
  refine lookup_eq (List.mem_of_getElem? (i := index - start) ?_) hunder rounds
  rw [List.getElem?_take_of_lt (by omega), List.getElem?_drop, Nat.add_sub_cancel' hle]
  exact hat

/-- The batch that is held when the last one was loaded from a place. -/
def heldAt (q : b.Queries) (lower : LowerCase) (communityAddress : String) (ordered : List Cid)
    (start : Option Nat) : Option (Batch α β) :=
  start.map (batchAt q lower communityAddress ordered)

variable (q lower communityAddress argumentLimit)

theorem ask_eq (hposts : ∀ cid ∈ ordered, ∃ c ∈ b.comments, c.cid = cid ∧ c.parentCid = none)
    (hindex : indexOf ordered cid = some index) (rounds : Nat) (start : Option Nat) :
    ask q lower communityAddress ordered argumentLimit rounds
        (heldAt q lower communityAddress ordered start) cid =
      if start.any fun start => start ≤ index && index < start + serializeBatch then
        .ok (heldAt q lower communityAddress ordered start,
          wholeLookup q lower communityAddress rounds cid)
      else if b.repliesBelow ((ordered.drop index).take serializeBatch) ≤ argumentLimit then
        .ok (heldAt q lower communityAddress ordered (some index),
          wholeLookup q lower communityAddress rounds cid)
      else .error .maximumCallStackSizeExceeded := by
  obtain ⟨hlt, -⟩ := List.getElem?_eq_some_iff.1 (indexOf_spec hindex)
  have hloaded := loadBatch_eq q lower communityAddress argumentLimit hlt
  have hnew : (loadBatch q lower communityAddress ordered argumentLimit index).map (fun batch =>
      (some batch, createDescendantsLookup rounds batch.replies cid)) =
      if b.repliesBelow ((ordered.drop index).take serializeBatch) ≤ argumentLimit then
        .ok (heldAt q lower communityAddress ordered (some index),
          wholeLookup q lower communityAddress rounds cid)
      else .error .maximumCallStackSizeExceeded := by
    rw [hloaded]
    split
    · rw [Except.map, lookup_batchAt hposts hindex (Nat.le_refl _)
        (Nat.lt_add_of_pos_right (by decide))]
      rfl
    · rfl
  rw [ask, hindex]
  cases start with
  | none => exact hnew
  | some start =>
    by_cases hreaches : start ≤ index ∧ index < start + serializeBatch
    · have hheld : ¬ (index < start || min (start + serializeBatch) ordered.length ≤ index) := by
        simp only [Bool.or_eq_true, decide_eq_true_eq]
        omega
      rw [if_pos (by simpa using hreaches)]
      show (if _ then _ else _ : Except RangeError (Batch α β)).map _ = _
      rw [if_neg (by exact hheld), Except.map, lookup_batchAt hposts hindex hreaches.1 hreaches.2]
      rfl
    · have hout : (index < start || min (start + serializeBatch) ordered.length ≤ index) = true := by
        simp only [Bool.or_eq_true, decide_eq_true_eq]
        omega
      rw [if_neg (by simpa using hreaches)]
      show (if _ then _ else _ : Except RangeError (Batch α β)).map _ = _
      rw [if_pos (by exact hout)]
      exact hnew

theorem askAll_eq_iff
    (hposts : ∀ cid ∈ ordered, ∃ c ∈ b.comments, c.cid = cid ∧ c.parentCid = none)
    {asked : List Cid} (hasked : ∀ cid ∈ asked, cid ∈ ordered) (rounds : Nat) (start : Option Nat) :
    askAll q lower communityAddress ordered argumentLimit rounds
        (heldAt q lower communityAddress ordered start) asked =
      .ok (asked.map (wholeLookup q lower communityAddress rounds)) ↔
    ∀ start' ∈ batchStarts ordered start asked,
      b.repliesBelow ((ordered.drop start').take serializeBatch) ≤ argumentLimit := by
  induction asked generalizing start with
  | nil => simp [askAll, batchStarts]
  | cons cid asked ih =>
    obtain ⟨index, hindex⟩ := indexOf_of_mem (hasked cid List.mem_cons_self)
    have hrest := ih fun cid h => hasked cid (List.mem_cons_of_mem _ h)
    rw [askAll, ask_eq q lower communityAddress argumentLimit hposts hindex, batchStarts, hindex]
    dsimp only
    split
    · rw [← hrest start, List.map_cons]
      simp [Except.bind, map_eq_ok]
    · rw [List.forall_mem_cons]
      split
      · rename_i hfew
        rw [← hrest (some index), List.map_cons]
        simp [Except.bind, map_eq_ok, hfew]
      · rename_i hmany
        simp [Except.bind, hmany]

variable {q lower communityAddress argumentLimit}

/-- **The whole list.**  The loop ends, and has collected every descendant once. -/
theorem wholeLookup_spec (q : b.Queries) (lower : LowerCase)
    (communityAddress : String) (cid : Cid) :
    ∃ n l, (∀ rounds, n ≤ rounds → wholeLookup q lower communityAddress rounds cid = some l) ∧
      (l.map PageSortReplyEntry.cid).Nodup ∧ ∀ e, e ∈ l ↔
        Below PageSortReplyEntry.cid (b.children lower communityAddress) cid e := by
  have hfalls : Falls PageSortReplyEntry.cid (b.children lower communityAddress) b.height :=
    falls_children
  obtain ⟨n, hn⟩ := walk_root hfalls (Nat.lt_succ_self (b.height cid))
  refine ⟨n, _, fun rounds hle => ?_, nodup_subtree hfalls oneParent_children
    (Nat.lt_succ_self _), fun e => mem_subtree hfalls (Nat.lt_succ_self _)⟩
  rw [wholeLookup, createDescendantsLookup, childrenByParent_all]
  exact hn rounds hle

/-- **Streamed subtrees.**  In whatever order the posts are asked for, the replies to each are those
of the list over all replies of the community, if and only if the batches that are loaded have no
more replies than a call takes arguments.  The loop ends below every comment, with each descendant
once and without the pages that are nested in it. -/
theorem streamed_eq (b : Board α β) (q : b.Queries) (lower : LowerCase) (communityAddress : String)
    (argumentLimit : Nat) (ordered asked : List Cid)
    (hposts : ∀ cid ∈ ordered, ∃ c ∈ b.comments, c.cid = cid ∧ c.parentCid = none)
    (hasked : ∀ cid ∈ asked, cid ∈ ordered) :
    ((∀ rounds, askAll q lower communityAddress ordered argumentLimit rounds none asked =
        .ok (asked.map (wholeLookup q lower communityAddress rounds))) ↔
      FewReplies b argumentLimit ordered asked) ∧
    ∀ cid, ∃ n l,
      (∀ rounds, n ≤ rounds → wholeLookup q lower communityAddress rounds cid = some l) ∧
      (l.map PageSortReplyEntry.cid).Nodup ∧
      (∀ e, e ∈ l ↔ Below PageSortReplyEntry.cid (b.children lower communityAddress) cid e) ∧
      ∀ e ∈ l, e.replies = none := by
  refine ⟨?_, fun cid => ?_⟩
  · have hiff : ∀ rounds, _ ↔ FewReplies b argumentLimit ordered asked := fun rounds =>
      askAll_eq_iff q lower communityAddress argumentLimit hposts hasked rounds none
    exact ⟨fun h => (hiff 0).1 (h 0), fun h rounds => (hiff rounds).2 h⟩
  obtain ⟨n, l, hends, hnodup, hmem⟩ := wholeLookup_spec q lower communityAddress cid
  refine ⟨n, l, hends, hnodup, hmem, fun e he => ?_⟩
  rcases ((hmem e).1 he).cases_parent with hchild | ⟨e', -, hchild⟩
  · exact (of_mem_children hchild).1
  · exact (of_mem_children hchild).1

end Batches

/-! ## A thread -/

/-- All statements go through the rows in their order. -/
def Board.inRowidOrder (b : Board α β) : b.Queries where
  queryReplies scope := b.entries.filter scope.admits
  byRowid scope post := by
    rw [List.filter_filter]
    exact List.filter_congr fun e _ => Bool.and_comm _ _

def row (cid communityName : String) : CommentsTableRow Unit where
  cid := cid
  parentCid := none
  postCid := cid
  depth := 0
  communityPublicKey := none
  communityName := some communityName
  pendingApproval := false
  other := ()

def postOnly : Board Unit Unit where
  comments := [row "post" "board.eth"]
  commentUpdates := ["post", "reply", "foreign", "below"].map fun cid => ⟨cid, none, none, none, ()⟩
  nodup := by decide
  nonempty := by decide
  ofPost := by decide
  ofReply c hc cid hparent := by
    rw [List.mem_singleton.1 hc] at hparent
    cases hparent

/-- A post with two replies, of which one is foreign and has a reply. -/
def thread : Board Unit Unit :=
  let replied := postOnly.store (row "reply" "board.bso") (by decide) (by decide)
    (some ⟨row "post" "board.eth", .head _⟩)
  let foreign := replied.store (row "foreign" "other.eth") (by decide) (by decide)
    (some ⟨row "post" "board.eth", .head _⟩)
  foreign.store (row "below" "board.eth") (by decide) (by decide)
    (some ⟨{ row "foreign" "other.eth" with parentCid := some "post", depth := 1, postCid := "post" },
      .tail _ (.tail _ (.head _))⟩)

/-- The foreign reply is left out with what is below it. -/
example : (wholeLookup thread.inRowidOrder asciiLowerCase "board.eth" 3 "post").map
    (fun l => l.map (·.cid)) = some ["reply"] := by
  decide +kernel

theorem streamed_thread :
    askAll thread.inRowidOrder asciiLowerCase "board.eth" ["post"] 3 3 none ["post", "post"] =
      .ok (["post", "post"].map (wholeLookup thread.inRowidOrder asciiLowerCase "board.eth" 3)) :=
  ((streamed_eq thread thread.inRowidOrder asciiLowerCase "board.eth" 3 ["post"] ["post", "post"]
    (fun cid hcid => ⟨_, .head _, (List.mem_singleton.1 hcid).symm, rfl⟩)
    (by decide)).1.2 (by decide +kernel)) 3

/-! ## A crowded thread -/

/-- The cid of a reply. -/
def numbered (index : Nat) : Cid := String.ofList (List.replicate (index + 1) 'r')

theorem toList_numbered (index : Nat) :
    (numbered index).toList = 'r' :: List.replicate index 'r' :=
  String.toList_ofList

theorem numbered_inj {index index' : Nat} (h : numbered index = numbered index') :
    index = index' := by
  have := congrArg (fun cid => cid.toList.length) h
  simpa [toList_numbered] using this

/-- A reply to the post. -/
def replyRow (index : Nat) : CommentsTableRow Unit :=
  { row (numbered index) "board.eth" with parentCid := some "post", postCid := "post", depth := 1 }

/-- A post with so many replies. -/
def crowd (count : Nat) : Board Unit Unit where
  comments := row "post" "board.eth" :: (List.range count).map replyRow
  commentUpdates := (List.range count).map fun index => ⟨numbered index, none, none, none, ()⟩
  nodup := by
    rw [List.map_cons, List.map_map, List.nodup_cons]
    refine ⟨fun hmem => ?_, (List.nodup_range).map fun _ _ => numbered_inj⟩
    obtain ⟨index, -, heq⟩ := List.mem_map.1 hmem
    have := (toList_numbered index).symm.trans (congrArg String.toList heq)
    exact absurd (List.cons.inj this).1 (by decide)
  nonempty c hc := by
    rcases List.mem_cons.1 hc with rfl | hc
    · decide
    · obtain ⟨index, -, rfl⟩ := List.mem_map.1 hc
      intro hempty
      have := (toList_numbered index).symm.trans (congrArg String.toList hempty)
      cases this
  ofPost c hc hparent := by
    rcases List.mem_cons.1 hc with rfl | hc
    · exact ⟨rfl, rfl⟩
    · obtain ⟨index, -, rfl⟩ := List.mem_map.1 hc
      cases hparent
  ofReply c hc cid hparent := by
    rcases List.mem_cons.1 hc with rfl | hc
    · cases hparent
    · obtain ⟨index, -, rfl⟩ := List.mem_map.1 hc
      exact ⟨_, List.mem_cons_self, Option.some.inj hparent, rfl, rfl⟩

theorem repliesBelow_crowd (count : Nat) : (crowd count).repliesBelow ["post"] = count := by
  rw [Board.repliesBelow, crowd, List.countP_cons_of_neg (by simp [row]), List.countP_map,
    List.countP_eq_length.2, List.length_range]
  intro index hindex
  have hupdated : (crowd count).commentUpdates.any (·.cid = numbered index) = true :=
    List.any_eq_true.2 ⟨_, List.mem_map.2 ⟨index, hindex, rfl⟩, decide_eq_true rfl⟩
  exact Bool.and_eq_true_iff.2 ⟨rfl, hupdated⟩

/-- A post with more replies than the engine takes arguments: the sort that streams is given up. -/
theorem askAll_crowd {count argumentLimit : Nat} (hcount : argumentLimit < count) :
    askAll (crowd count).inRowidOrder asciiLowerCase "board.eth" ["post"] argumentLimit 2 none
      ["post"] = .error .maximumCallStackSizeExceeded := by
  have hmany : ¬ (crowd count).repliesBelow ((["post"].drop 0).take serializeBatch) ≤
      argumentLimit := by
    rw [List.drop_zero, show ["post"].take serializeBatch = ["post"] from rfl, repliesBelow_crowd]
    omega
  have hposts : ∀ cid ∈ ["post"], ∃ c ∈ (crowd count).comments, c.cid = cid ∧ c.parentCid = none :=
    fun cid hcid => ⟨_, .head _, (List.mem_singleton.1 hcid).symm, rfl⟩
  have hindex : indexOf ["post"] "post" = some 0 := rfl
  have hask := ask_eq (crowd count).inRowidOrder asciiLowerCase "board.eth"
    argumentLimit hposts hindex 2 none
  rw [if_neg (by decide), if_neg hmany] at hask
  have hthrows : ask (crowd count).inRowidOrder asciiLowerCase "board.eth" ["post"]
      argumentLimit 2 none "post" = .error .maximumCallStackSizeExceeded := hask
  rw [askAll, hthrows]
  rfl

/-- An engine that takes 125000 arguments, and a post with one reply more: the whole list has all of
them, and the sort that streams is given up. -/
theorem crowd_throws :
    askAll (crowd 125001).inRowidOrder asciiLowerCase "board.eth" ["post"] 125000 2 none ["post"] =
        .error .maximumCallStackSizeExceeded ∧
      ∃ rounds l, wholeLookup (crowd 125001).inRowidOrder asciiLowerCase "board.eth"
        rounds "post" = some l := by
  refine ⟨askAll_crowd (by omega), ?_⟩
  obtain ⟨rounds, l, hl, -⟩ := wholeLookup_spec (crowd 125001).inRowidOrder
    asciiLowerCase "board.eth" "post"
  exact ⟨rounds, l, hl rounds (Nat.le_refl _)⟩

end StreamedReplies
end Pkc

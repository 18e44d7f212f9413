import Mathlib.Data.List.Sort
import Mathlib.Data.List.Dedup

/-!
# The comment tables a publish cycle works on

A community keeps its publications in SQLite.  A publish cycle and a purge read and write four of
its tables: `comments`, `commentUpdates` (one row per comment whose CommentUpdate has been
calculated), `votes` and `commentEdits`.  The rows below carry the columns the modelled queries
touch; a table is the list of its rows in `rowid` order.

* `upsertCommentUpdates`, `markCommentsAsPublishedToPostUpdates`, `forceUpdateOnAllComments` and
  `forceUpdateOnAllCommentsWithCid` are the four writers of `publishedToPostUpdatesMFS`.
* `purgeComment` deletes a comment with its descendants and force-updates every comment whose
  counts or author statistics the deletion changed.
* `queryCidsToBeUpdated` is the flag query at the start of a cycle.
-/

set_option autoImplicit false

namespace Pkc

/-- An IPFS content identifier, in the string form the tables store. -/
abbrev Cid := String

/-- A row of `comments`. -/
structure CommentRow where
  cid : Cid
  /-- `NULL` for a post. -/
  parentCid : Option Cid
  depth : Nat
  authorSignerAddress : String
  /-- Waiting in the mod queue; neither counted nor published. -/
  pendingApproval : Bool
deriving DecidableEq, Repr

/-- A row of `commentUpdates`. -/
structure CommentUpdateRow where
  cid : Cid
  /-- `NULL` unless a moderator answered a pending comment. -/
  approved : Option Bool
  /-- Cleared when the row has to be calculated again, set once its cycle has written it. -/
  publishedToPostUpdatesMFS : Bool
deriving DecidableEq, Repr

/-- A row of `votes` or of `commentEdits`: which comment it is about and who signed it. -/
structure AuthoredRow where
  commentCid : Cid
  authorSignerAddress : String
deriving DecidableEq, Repr

/-- The four tables. -/
structure Tables where
  comments : List CommentRow
  commentUpdates : List CommentUpdateRow
  votes : List AuthoredRow
  commentEdits : List AuthoredRow
deriving DecidableEq, Repr

namespace Tables

/-! ## Writers of the published flag -/

/-- `UPDATE commentUpdates SET publishedToPostUpdatesMFS = value WHERE cid IN (cids)`. -/
def setPublishedFlag (db : Tables) (value : Bool) (cids : List Cid) : Tables :=
  { db with
    commentUpdates := db.commentUpdates.map fun row =>
      if row.cid ∈ cids then { row with publishedToPostUpdatesMFS := value } else row }

def markCommentsAsPublishedToPostUpdates (db : Tables) (commentCids : List Cid) : Tables :=
  db.setPublishedFlag true commentCids

def forceUpdateOnAllCommentsWithCid (db : Tables) (commentCids : List Cid) : Tables :=
  db.setPublishedFlag false commentCids

def forceUpdateOnAllComments (db : Tables) : Tables :=
  { db with
    commentUpdates := db.commentUpdates.map fun row =>
      { row with publishedToPostUpdatesMFS := false } }

/-- Writes freshly calculated rows, each with the flag cleared, over the rows of the same cids. -/
def upsertCommentUpdates (db : Tables) (updates : List (Cid × Option Bool)) : Tables :=
  { db with
    commentUpdates :=
      db.commentUpdates.filter (fun row => row.cid ∉ updates.map Prod.fst) ++
        updates.map fun update => ⟨update.1, update.2, false⟩ }

/-- The foreign key of `commentUpdates.cid`: without the comment the upsert throws. -/
def commentExistsInDb (db : Tables) (cid : Cid) : Bool :=
  db.comments.any fun comment => comment.cid == cid

/-! ## Purging a comment -/

def directChildren (db : Tables) (cid : Cid) : List Cid :=
  (db.comments.filter fun comment => comment.parentCid == some cid).map CommentRow.cid

/-- `cid` and everything below it.  A comment's parent is stored before it, so a chain of replies
is no longer than the table and `fuel` is the number of its rows. -/
def getAllDescendantCids (db : Tables) : Nat → Cid → List Cid
  | 0, cid => [cid]
  | fuel + 1, cid => cid :: (db.directChildren cid).flatMap (db.getAllDescendantCids fuel)

/-- The chain of comments from `parentCid` up to its post. -/
def queryParentsCids (db : Tables) : Nat → Cid → List Cid
  | 0, _ => []
  | fuel + 1, parentCid =>
    match db.comments.find? fun comment => comment.cid == parentCid with
    | none => []
    | some comment =>
      match comment.parentCid with
      | none => [comment.cid]
      | some grandparentCid => comment.cid :: db.queryParentsCids fuel grandparentCid

/-- The rows of the comments about to be purged. -/
def rowsOf (db : Tables) (cids : List Cid) : List CommentRow :=
  db.comments.filter fun comment => comment.cid ∈ cids

/-- What one purged comment's author voted on or edited, and the comments above it. -/
def commentsToForceUpdate (db : Tables) (purged : CommentRow) : List Cid :=
  (db.votes.filter fun vote => vote.authorSignerAddress = purged.authorSignerAddress).map
      AuthoredRow.commentCid ++
    (db.commentEdits.filter fun edit => edit.authorSignerAddress = purged.authorSignerAddress).map
      AuthoredRow.commentCid ++
    (match purged.parentCid with
      | none => []
      | some parentCid => db.queryParentsCids db.comments.length parentCid)

/-- The four deletions of a purge. -/
def deleteRows (db : Tables) (cids : List Cid) : Tables where
  comments := db.comments.filter fun comment => comment.cid ∉ cids
  commentUpdates := db.commentUpdates.filter fun row => row.cid ∉ cids
  votes := db.votes.filter fun vote => vote.commentCid ∉ cids
  commentEdits := db.commentEdits.filter fun edit => edit.commentCid ∉ cids

/-- The cids a purge force-updates: the affected authors' remaining comments, the comments named
by `commentsToForceUpdate`, and one remaining comment at random (`random` is what
`ORDER BY RANDOM() LIMIT 1` drew), so that the next record is published even when no comment
needed an update. -/
def allCommentsToUpdate (db : Tables) (purgedCids : List Cid) (random : Nat) : List Cid :=
  let purged := db.rowsOf purgedCids
  let remaining := (db.deleteRows purgedCids).comments
  (remaining.filter fun comment =>
      comment.authorSignerAddress ∈ purged.map CommentRow.authorSignerAddress).map CommentRow.cid ++
    purged.flatMap db.commentsToForceUpdate ++
    (remaining[random % remaining.length]?.map CommentRow.cid).toList

/-- The cids a purge of `cid` deletes. -/
def purgedCids (db : Tables) (cid : Cid) : List Cid :=
  db.getAllDescendantCids db.comments.length cid

/-- `none` when the comment is not in the table: the transaction is rolled back and the purge
throws. -/
def purgeComment (db : Tables) (cid : Cid) (random : Nat) : Option Tables :=
  if db.commentExistsInDb cid then
    some ((db.deleteRows (db.purgedCids cid)).forceUpdateOnAllCommentsWithCid
      (db.allCommentsToUpdate (db.purgedCids cid) random))
  else
    none

/-! ## The flag query -/

/-- The first arm of the flag query: no CommentUpdate row yet, or one not yet published. -/
def neverPublished (db : Tables) (comment : CommentRow) : Bool :=
  match db.commentUpdates.find? fun row => row.cid == comment.cid with
  | none => true
  | some row => !row.publishedToPostUpdatesMFS

/-- The comments a cycle recalculates.  `flagged` is what the other arms select (a newer vote,
edit, moderation or child, a changed child count, an author or an ancestor of a flagged comment);
none of them selects a comment pending approval. -/
def queryCommentsToBeUpdated (db : Tables) (flagged : List Cid) : List CommentRow :=
  db.comments.filter fun comment =>
    !comment.pendingApproval && (db.neverPublished comment || decide (comment.cid ∈ flagged))

/-- How many comments of a depth are calculated before the next slice starts. -/
def commentUpdateSliceSize : Nat := 2000

/-- The slices of a cycle, deepest depth first, none longer than `commentUpdateSliceSize`. -/
def slicesDeepestFirst (toUpdate : List CommentRow) : List (List Cid) :=
  let depths := ((toUpdate.map CommentRow.depth).dedup).insertionSort (fun a b => b ≤ a)
  depths.flatMap fun depth =>
    ((toUpdate.filter fun comment => comment.depth == depth).map CommentRow.cid).toChunks
      commentUpdateSliceSize

/-! ## The latest comment and the latest post -/

/-- Not pending and not disapproved: the rows the record's `lastCommentCid` is chosen from. -/
def countsAsLatest (db : Tables) (comment : CommentRow) : Bool :=
  !comment.pendingApproval &&
    match db.commentUpdates.find? fun row => row.cid == comment.cid with
    | none => true
    | some row => decide (row.approved ≠ some false)

def queryLatestCommentCid (db : Tables) : Option Cid :=
  (db.comments.filter db.countsAsLatest).getLast?.map CommentRow.cid

def queryLatestPostCid (db : Tables) : Option Cid :=
  (db.comments.filter fun comment => comment.depth == 0 && db.countsAsLatest comment).getLast?.map
    CommentRow.cid

/-! ## The mod queue -/

/-- `UPDATE comments SET pendingApproval = 0 WHERE cid = cid`. -/
def removeCommentFromPendingApproval (db : Tables) (cid : Cid) : Tables :=
  { db with
    comments := db.comments.map fun comment =>
      if comment.cid = cid then { comment with pendingApproval := false } else comment }

/-- Approving also assigns the comment its numbers, which no query here reads. -/
def approvePendingComment (db : Tables) (cid : Cid) : Tables :=
  db.removeCommentFromPendingApproval cid

/-- The oldest pending comments, as many as there are above the limit. -/
def oldestPending (db : Tables) (maxPendingApprovalCount : Nat) : List Cid :=
  let pending := (db.comments.filter CommentRow.pendingApproval).map CommentRow.cid
  pending.take (pending.length - maxPendingApprovalCount)

/-- Evicts the oldest pending comments above the limit.  `random` is the draw of each purge.  A
purge that throws rolls all of them back, and the error is only logged. -/
def removeOldestPendingComments (db : Tables) (maxPendingApprovalCount : Nat)
    (random : Cid → Nat) : Tables :=
  ((db.oldestPending maxPendingApprovalCount).foldlM
    (fun (db : Tables) cid => db.purgeComment cid (random cid)) db).getD db

/-! ## Well-formed tables

The schema's keys, and what the publication gate adds to them: a reply to a pending comment is
never accepted, and a comment does not become pending after it was stored. -/

structure Valid (db : Tables) : Prop where
  /-- `cid` is the primary key of `comments`. -/
  cids_nodup : (db.comments.map CommentRow.cid).Nodup
  /-- `commentUpdates.cid` references `comments.cid`. -/
  updates_reference : ∀ row ∈ db.commentUpdates, row.cid ∈ db.comments.map CommentRow.cid
  /-- No comment has a pending parent. -/
  parent_not_pending : ∀ comment ∈ db.comments, ∀ parent ∈ db.comments,
    comment.parentCid = some parent.cid → parent.pendingApproval = false

theorem eq_of_cid_eq {db : Tables} (h : db.Valid) {a b : CommentRow} (ha : a ∈ db.comments)
    (hb : b ∈ db.comments) (hcid : a.cid = b.cid) : a = b :=
  List.inj_on_of_nodup_map h.cids_nodup ha hb hcid

theorem commentExistsInDb_iff {db : Tables} {cid : Cid} :
    db.commentExistsInDb cid = true ↔ cid ∈ db.comments.map CommentRow.cid := by
  simp [commentExistsInDb, List.any_eq_true]

theorem valid_setPublishedFlag {db : Tables} (h : db.Valid) (value : Bool) (cids : List Cid) :
    (db.setPublishedFlag value cids).Valid := by
  refine ⟨h.cids_nodup, fun row hrow => ?_, h.parent_not_pending⟩
  obtain ⟨old, hold, rfl⟩ := List.mem_map.1 hrow
  have hcid := h.updates_reference old hold
  split <;> exact hcid

theorem valid_deleteRows {db : Tables} (h : db.Valid) (cids : List Cid) :
    (db.deleteRows cids).Valid := by
  refine ⟨h.cids_nodup.sublist (List.filter_sublist.map _), fun row hrow => ?_,
    fun comment hc parent hp => ?_⟩
  · obtain ⟨hrow, hout⟩ := List.mem_filter.1 hrow
    obtain ⟨comment, hcomment, hcid⟩ := List.mem_map.1 (h.updates_reference row hrow)
    refine List.mem_map.2 ⟨comment, List.mem_filter.2 ⟨hcomment, ?_⟩, hcid⟩
    rw [hcid]
    exact hout
  · exact h.parent_not_pending comment (List.mem_filter.1 hc).1 parent (List.mem_filter.1 hp).1

/-- What a purge does to the comments: it deletes the purged cids and touches no other row. -/
theorem purgeComment_spec {db db' : Tables} {cid : Cid} {random : Nat}
    (h : db.purgeComment cid random = some db') :
    cid ∈ db.comments.map CommentRow.cid ∧
      db' = (db.deleteRows (db.purgedCids cid)).setPublishedFlag false
        (db.allCommentsToUpdate (db.purgedCids cid) random) := by
  unfold purgeComment at h
  split at h
  · rename_i hexists
    cases h
    exact ⟨commentExistsInDb_iff.1 hexists, rfl⟩
  · cases h

theorem valid_purgeComment {db db' : Tables} {cid : Cid} {random : Nat} (hdb : db.Valid)
    (h : db.purgeComment cid random = some db') : db'.Valid := by
  obtain ⟨-, rfl⟩ := purgeComment_spec h
  exact valid_setPublishedFlag (valid_deleteRows hdb _) _ _

theorem valid_upsertCommentUpdates {db : Tables} {updates : List (Cid × Option Bool)}
    (hdb : db.Valid) (h : ∀ cid ∈ updates.map Prod.fst, db.commentExistsInDb cid = true) :
    (db.upsertCommentUpdates updates).Valid := by
  refine ⟨hdb.cids_nodup, fun row hrow => ?_, hdb.parent_not_pending⟩
  rcases List.mem_append.1 hrow with hrow | hrow
  · exact hdb.updates_reference row (List.mem_filter.1 hrow).1
  · obtain ⟨update, hupdate, rfl⟩ := List.mem_map.1 hrow
    exact commentExistsInDb_iff.1 (h _ (List.mem_map_of_mem hupdate))

theorem removeCommentFromPendingApproval_cids (db : Tables) (cid : Cid) :
    (db.removeCommentFromPendingApproval cid).comments.map CommentRow.cid =
      db.comments.map CommentRow.cid := by
  rw [removeCommentFromPendingApproval, List.map_map]
  refine List.map_congr_left fun comment _ => ?_
  simp only [Function.comp]
  split <;> rfl

/-- Leaving the mod queue only ever turns `pendingApproval` off. -/
theorem mem_removeCommentFromPendingApproval {db : Tables} {cid : Cid} {comment : CommentRow}
    (h : comment ∈ (db.removeCommentFromPendingApproval cid).comments) :
    ∃ old ∈ db.comments, old.cid = comment.cid ∧ old.parentCid = comment.parentCid ∧
      (old.pendingApproval = false → comment.pendingApproval = false) := by
  obtain ⟨old, hold, rfl⟩ := List.mem_map.1 h
  refine ⟨old, hold, ?_⟩
  split <;> simp

theorem valid_removeCommentFromPendingApproval {db : Tables} (h : db.Valid) (cid : Cid) :
    (db.removeCommentFromPendingApproval cid).Valid := by
  refine ⟨?_, fun row hrow => ?_, fun comment hc parent hp hparent => ?_⟩
  · rw [removeCommentFromPendingApproval_cids]
    exact h.cids_nodup
  · rw [removeCommentFromPendingApproval_cids]
    exact h.updates_reference row hrow
  · obtain ⟨oldComment, holdComment, -, hlink, -⟩ := mem_removeCommentFromPendingApproval hc
    obtain ⟨oldParent, holdParent, hcid, -, hpending⟩ := mem_removeCommentFromPendingApproval hp
    refine hpending (h.parent_not_pending oldComment holdComment oldParent holdParent ?_)
    rw [hlink, hparent, hcid]

/-- Whether a new row can be inserted: its cid is new and nothing refers to it yet, and its parent
is stored and not pending (the foreign key of `parentCid`, and the publication gate). -/
def acceptsComment (db : Tables) (row : CommentRow) : Bool :=
  !db.commentExistsInDb row.cid &&
    decide (∀ comment ∈ db.comments, comment.parentCid ≠ some row.cid) &&
    match row.parentCid with
    | none => true
    | some parentCid => db.comments.any fun parent =>
        parent.cid == parentCid && !parent.pendingApproval

def insertComment (db : Tables) (row : CommentRow) : Tables :=
  { db with comments := db.comments ++ [row] }

theorem acceptsComment_spec {db : Tables} {row : CommentRow} (h : db.acceptsComment row = true) :
    row.cid ∉ db.comments.map CommentRow.cid ∧
      (∀ comment ∈ db.comments, comment.parentCid ≠ some row.cid) ∧
      ∀ parentCid, row.parentCid = some parentCid →
        ∃ parent ∈ db.comments, parent.cid = parentCid ∧ parent.pendingApproval = false := by
  simp only [acceptsComment, Bool.and_eq_true, decide_eq_true_eq, Bool.not_eq_true'] at h
  obtain ⟨⟨hnew, hchild⟩, hparent⟩ := h
  refine ⟨fun hmem => ?_, hchild, fun parentCid hlink => ?_⟩
  · rw [commentExistsInDb_iff.2 hmem] at hnew
    cases hnew
  · rw [hlink] at hparent
    simpa [List.any_eq_true] using hparent

theorem valid_insertComment {db : Tables} (h : db.Valid) {row : CommentRow}
    (haccepts : db.acceptsComment row = true) : (db.insertComment row).Valid := by
  obtain ⟨hfresh, hchild, hparent⟩ := acceptsComment_spec haccepts
  refine ⟨?_, fun update hupdate => ?_, fun comment hc parent hp hlink => ?_⟩
  · rw [insertComment, List.map_append, List.nodup_append]
    refine ⟨h.cids_nodup, by simp, ?_⟩
    rintro a ha b hb rfl
    rw [List.map_singleton, List.mem_singleton] at hb
    exact hfresh (hb ▸ ha)
  · rw [insertComment, List.map_append]
    exact List.mem_append_left _ (h.updates_reference update hupdate)
  · rcases List.mem_append.1 hc with hc | hc
    · rcases List.mem_append.1 hp with hp | hp
      · exact h.parent_not_pending comment hc parent hp hlink
      · rw [List.mem_singleton] at hp
        exact absurd (hp ▸ hlink) (hchild comment hc)
    · rw [List.mem_singleton] at hc
      obtain ⟨stored, hstored, hcid, hpending⟩ := hparent parent.cid (hc ▸ hlink)
      rcases List.mem_append.1 hp with hp | hp
      · rwa [← eq_of_cid_eq h hstored hp hcid]
      · rw [List.mem_singleton] at hp
        exact absurd (List.mem_map.2 ⟨stored, hstored, hp ▸ hcid⟩) hfresh

/-! ## Evicting pending comments

A pending comment has no replies, so purging it deletes its own row and nothing else. -/

theorem purgedCids_of_pending {db : Tables} (h : db.Valid) {comment : CommentRow}
    (hmem : comment ∈ db.comments) (hpending : comment.pendingApproval = true) :
    db.purgedCids comment.cid = [comment.cid] := by
  have hchildren : db.directChildren comment.cid = [] := by
    rw [directChildren, List.map_eq_nil_iff, List.filter_eq_nil_iff]
    intro child hchild hlink
    have hfalse := h.parent_not_pending child hchild comment hmem (by simpa using hlink)
    rw [hpending] at hfalse
    cases hfalse
  unfold purgedCids
  cases db.comments.length with
  | zero => rfl
  | succ fuel => rw [getAllDescendantCids, hchildren, List.flatMap_nil]

/-- What an eviction leaves: the tables are well formed, the comments are a filter of the old ones
that keeps whatever is not pending, and no CommentUpdate row is new. -/
structure Evicts (db db' : Tables) : Prop where
  valid : db'.Valid
  comments : ∃ keep : CommentRow → Bool, db'.comments = db.comments.filter keep ∧
    ∀ comment ∈ db.comments, comment.pendingApproval = false → keep comment = true
  updates : ∀ row ∈ db'.commentUpdates, ∃ old ∈ db.commentUpdates, old.cid = row.cid

theorem evicts_refl {db : Tables} (hdb : db.Valid) : Evicts db db :=
  ⟨hdb, ⟨fun _ => true, by simp, fun _ _ _ => rfl⟩, fun row hrow => ⟨row, hrow, rfl⟩⟩

theorem evicts_trans {db db₁ db₂ : Tables} (h₁ : Evicts db db₁) (h₂ : Evicts db₁ db₂) :
    Evicts db db₂ := by
  obtain ⟨keep₁, heq₁, hkeep₁⟩ := h₁.comments
  obtain ⟨keep₂, heq₂, hkeep₂⟩ := h₂.comments
  refine ⟨h₂.valid, ⟨fun comment => keep₁ comment && keep₂ comment, ?_, ?_⟩, fun row hrow => ?_⟩
  · rw [heq₂, heq₁, List.filter_filter]
    simp only [Bool.and_comm]
  · intro comment hc hnot
    have hstays : comment ∈ db₁.comments := by
      rw [heq₁]
      exact List.mem_filter.2 ⟨hc, hkeep₁ comment hc hnot⟩
    simp only [hkeep₁ comment hc hnot, hkeep₂ comment hstays hnot, Bool.and_self]
  · obtain ⟨middle, hmiddle, hcid⟩ := h₂.updates row hrow
    obtain ⟨old, hold, hcid'⟩ := h₁.updates middle hmiddle
    exact ⟨old, hold, hcid'.trans hcid⟩

theorem evicts_purgeComment {db db' : Tables} {cid : Cid} {random : Nat} (hdb : db.Valid)
    (hpending : ∀ comment ∈ db.comments, comment.cid = cid → comment.pendingApproval = true)
    (hpurge : db.purgeComment cid random = some db') : Evicts db db' := by
  have hdb' := valid_purgeComment hdb hpurge
  obtain ⟨hexists, rfl⟩ := purgeComment_spec hpurge
  obtain ⟨evicted, hevicted, rfl⟩ := List.mem_map.1 hexists
  have hone := purgedCids_of_pending hdb hevicted (hpending evicted hevicted rfl)
  rw [hone] at hdb' ⊢
  refine ⟨hdb', ⟨fun comment => decide (comment.cid ∉ [evicted.cid]), rfl, ?_⟩, fun row hrow => ?_⟩
  · intro comment hc hnot
    refine decide_eq_true fun hin => ?_
    have htrue := hpending comment hc (List.mem_singleton.1 hin)
    rw [hnot] at htrue
    cases htrue
  · obtain ⟨old, hold, rfl⟩ := List.mem_map.1 hrow
    refine ⟨old, (List.mem_filter.1 hold).1, ?_⟩
    split <;> rfl

theorem evicts_foldlM (random : Cid → Nat) :
    ∀ (oldest : List Cid) {db db' : Tables}, db.Valid →
      (∀ comment ∈ db.comments, comment.cid ∈ oldest → comment.pendingApproval = true) →
      oldest.foldlM (fun (db : Tables) cid => db.purgeComment cid (random cid)) db = some db' →
      Evicts db db'
  | [], db, db', hdb, _, h => by
    rw [List.foldlM_nil] at h
    cases h
    exact evicts_refl hdb
  | cid :: oldest, db, db', hdb, hpending, h => by
    rw [List.foldlM_cons] at h
    obtain ⟨db₁, hpurge, hrest⟩ := Option.bind_eq_some_iff.1 h
    have hfirst : Evicts db db₁ := evicts_purgeComment hdb
      (fun comment hc hcid => hpending comment hc (hcid ▸ List.mem_cons_self)) hpurge
    refine evicts_trans hfirst (evicts_foldlM random oldest hfirst.valid ?_ hrest)
    intro comment hc hin
    obtain ⟨keep, hcomments, -⟩ := hfirst.comments
    rw [hcomments] at hc
    exact hpending comment (List.mem_filter.1 hc).1 (List.mem_cons_of_mem _ hin)

theorem evicts_removeOldestPendingComments {db : Tables} (hdb : db.Valid) (limit : Nat)
    (random : Cid → Nat) : Evicts db (db.removeOldestPendingComments limit random) := by
  unfold removeOldestPendingComments
  cases hfold : (db.oldestPending limit).foldlM
      (fun (db : Tables) cid => db.purgeComment cid (random cid)) db with
  | none => exact evicts_refl hdb
  | some db' =>
    refine evicts_foldlM random (db.oldestPending limit) hdb (fun comment hc hin => ?_) hfold
    obtain ⟨row, hrow, hcid⟩ := List.mem_map.1 (List.mem_of_mem_take hin)
    obtain ⟨hmem, hpending⟩ := List.mem_filter.1 hrow
    rwa [eq_of_cid_eq hdb hc hmem hcid.symm]

/-- The transaction that stores a comment: insert its row, then evict down to the community's
limit, if it has one. -/
def insertAndEvict (db : Tables) (row : CommentRow) (maxPendingApprovalCount : Option Nat)
    (random : Cid → Nat) : Tables :=
  match maxPendingApprovalCount with
  | none => db.insertComment row
  | some limit => (db.insertComment row).removeOldestPendingComments limit random

theorem evicts_insertAndEvict {db : Tables} (hdb : db.Valid) {row : CommentRow}
    (haccepts : db.acceptsComment row = true) (limit : Option Nat) (random : Cid → Nat) :
    Evicts (db.insertComment row) (db.insertAndEvict row limit random) := by
  have hstored := valid_insertComment hdb haccepts
  cases limit with
  | none => exact evicts_refl hstored
  | some limit => exact evicts_removeOldestPendingComments hstored limit random

/-! ## The latest comment after an insertion -/

/-- A comment that has just been inserted and is not pending is the latest comment, also after
an eviction. -/
theorem queryLatestCommentCid_of_insert {db db' : Tables} {row : CommentRow} (hdb : db.Valid)
    (haccepts : db.acceptsComment row = true) (hrow : row.pendingApproval = false)
    (hevicts : Evicts (db.insertComment row) db') :
    db'.queryLatestCommentCid = some row.cid := by
  have hnone : (db'.commentUpdates.find? fun update => update.cid == row.cid) = none := by
    rw [List.find?_eq_none]
    intro update hupdate hcid
    obtain ⟨old, hold, hold'⟩ := hevicts.updates update hupdate
    have hknown := hdb.updates_reference old hold
    rw [hold', beq_iff_eq.1 hcid] at hknown
    exact (acceptsComment_spec haccepts).1 hknown
  have hcounts : db'.countsAsLatest row = true := by
    simp [countsAsLatest, hrow, hnone]
  obtain ⟨keep, hcomments, hkeep⟩ := hevicts.comments
  have hlast := hkeep row (List.mem_append_right _ (List.mem_singleton_self row)) hrow
  rw [queryLatestCommentCid, hcomments, insertComment, List.filter_append, List.filter_append]
  simp [hlast, hcounts]

theorem queryLatestCommentCid_mem {db : Tables} {cid : Cid}
    (h : db.queryLatestCommentCid = some cid) :
    ∃ comment ∈ db.comments, comment.cid = cid ∧ comment.pendingApproval = false := by
  rw [queryLatestCommentCid, Option.map_eq_some_iff] at h
  obtain ⟨comment, hlast, rfl⟩ := h
  obtain ⟨hmem, hcounts⟩ := List.mem_filter.1 (List.mem_of_getLast? hlast)
  refine ⟨comment, hmem, rfl, ?_⟩
  simp only [countsAsLatest, Bool.and_eq_true, Bool.not_eq_true'] at hcounts
  exact hcounts.1

end Tables

end Pkc

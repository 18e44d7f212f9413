import Pkc.Database.UpdateReads

/-!
# Writes to the database

Every operation that writes to one of the tables, and what it leaves.  Those that store or remove a
publication advance the write generation, by which the memo of authors is found to be out of date;
those that write CommentUpdates, or give a comment its numbers, do not.

* `Write.apply` is what an operation does to the tables.
* `Write.advances` says which operations advance the generation.

An operation runs in a transaction, so it is done as a whole or not at all.
-/

set_option autoImplicit false

namespace Pkc
namespace UpdateReads

inductive Write
  | insertVotes (votes : List VotesTableRow)
  | deleteVote (authorSignerAddress : Address) (commentCid : Cid)
  | insertComments (comments : List CommentsTableRow)
  | insertPseudonymityAliases (aliases : List PseudonymityAliasRow)
  | insertCommentModerations (moderations : List CommentModerationTableRow)
  | insertCommentEdits (edits : List CommentEditsTableRow)
  /-- The row at a place of the table. -/
  | deleteCommentEditRow (place : Nat)
  | removeCommentFromPendingApproval (cid : Cid)
  /-- With the comment that is forced to update at random. -/
  | purgeComment (cid : Cid) (randomComment : Option Cid)
  | approvePendingComment (cid : Cid)
  | assignNumbersForComment (cid : Cid)
  | upsertCommentUpdates (updates : List CommentUpdatesRow)
  | markCommentsAsPublishedToPostUpdates (cids : List Cid)
  | forceUpdateOnAllComments
  | forceUpdateOnAllCommentsWithCid (cids : List Cid)

/-- `_publicationWriteGeneration++`. -/
def Write.advances : Write → Bool
  | .insertVotes _ | .deleteVote _ _ | .insertComments _ | .insertPseudonymityAliases _ => true
  | .insertCommentModerations _ | .insertCommentEdits _ | .deleteCommentEditRow _ => true
  | .removeCommentFromPendingApproval _ | .purgeComment _ _ => true
  | .approvePendingComment _ | .assignNumbersForComment _ | .upsertCommentUpdates _ => false
  | .markCommentsAsPublishedToPostUpdates _ => false
  | .forceUpdateOnAllComments | .forceUpdateOnAllCommentsWithCid _ => false

/-! ## CommentUpdates -/

/-- A CommentUpdate without a number keeps the one that is stored. -/
def CommentUpdatesRow.over (update row : CommentUpdatesRow) : CommentUpdatesRow :=
  { update with
    number := update.number <|> row.number
    postNumber := update.postNumber <|> row.postNumber }

/-- `INSERT … ON CONFLICT(cid) DO UPDATE`. -/
def upsertCommentUpdate (rows : List CommentUpdatesRow) (update : CommentUpdatesRow) :
    List CommentUpdatesRow :=
  if rows.any (·.cid = update.cid) then
    rows.map fun row => if row.cid = update.cid then update.over row else row
  else rows ++ [update]

namespace DbTables

/-- `SET publishedToPostUpdatesMFS = …` where `chosen`. -/
def setPublished (t : DbTables) (chosen : Cid → Bool) (published : Bool) : DbTables :=
  { t with commentUpdates := t.commentUpdates.map fun row =>
      if chosen row.cid then { row with publishedToPostUpdatesMFS := published } else row }

/-! ## Comments -/

def updateComment (t : DbTables) (cid : Cid) (f : CommentsTableRow → CommentsTableRow) : DbTables :=
  { t with comments := t.comments.map fun c => if c.cid = cid then f c else c }

/-- One more than the largest of the numbers that have been given. -/
def nextNumber (t : DbTables) (counted : CommentsTableRow → Bool)
    (number : CommentsTableRow → Option Nat) : Nat :=
  ((t.comments.filter fun c => counted c && !c.pendingApproval).filterMap number).foldr max 0 + 1

/-- `_assignNumbersForComment`. -/
def assignNumbers (t : DbTables) (cid : Cid) : DbTables :=
  t.updateComment cid fun c =>
    if c.pendingApproval || (positive c.number).isSome then c
    else
      { c with
        number := some (t.nextNumber (fun _ => true) (·.number))
        postNumber :=
          if c.depth = 0 then some (t.nextNumber (fun c => c.depth = 0) (·.postNumber)) else none }

/-- `pendingApproval = 0`. -/
def clearPending (t : DbTables) (cid : Cid) : DbTables :=
  t.updateComment cid fun c => { c with pendingApproval := false }

/-! ## Purging -/

/-- `_getAllDescendantCids`, with the comment itself. -/
def allDescendantCids (t : DbTables) : Nat → Cid → List Cid
  | 0, cid => [cid]
  | levels + 1, cid => cid :: ((t.comments.filter (·.parentCid = some cid)).map (·.cid)).flatMap
      (t.allDescendantCids levels)

/-- `queryParentsCids`, from a parent on. -/
def parentsCids (t : DbTables) : Nat → Cid → List Cid
  | 0, _ => []
  | levels + 1, cid => match t.comments.find? (·.cid = cid) with
    | none => []
    | some c => cid :: (c.parentCid.map (t.parentsCids levels)).getD []

/-- The comments that a purge forces to update: those by the authors of what was purged, those that
they have voted on or edited, and all above it. -/
def commentsToForceUpdate (t : DbTables) (purged : List Cid) : List Cid :=
  let rows := t.comments.filter (·.cid ∈ purged)
  let authors := rows.map (·.authorSignerAddress)
  (t.comments.filter (·.authorSignerAddress ∈ authors)).map (·.cid) ++
    (t.votes.filter (·.authorSignerAddress ∈ authors)).map (·.commentCid) ++
    (t.commentEdits.filter (·.authorSignerAddress ∈ authors)).map (·.commentCid) ++
    rows.flatMap fun c => (c.parentCid.map (t.parentsCids t.comments.length)).getD []

/-- Moderations stay. -/
def purge (t : DbTables) (cid : Cid) (randomComment : Option Cid) : DbTables :=
  let purged := t.allDescendantCids t.comments.length cid
  let forced := t.commentsToForceUpdate purged ++ randomComment.toList
  let kept : DbTables :=
    { t with
      comments := t.comments.filter (·.cid ∉ purged)
      votes := t.votes.filter (·.commentCid ∉ purged)
      commentEdits := t.commentEdits.filter (·.commentCid ∉ purged)
      pseudonymityAliases := t.pseudonymityAliases.filter (·.commentCid ∉ purged)
      commentUpdates := t.commentUpdates.filter (·.cid ∉ purged) }
  kept.setPublished (· ∈ forced) false

end DbTables

/-! ## All writes -/

/-- `INSERT OR REPLACE`, with the address of the original author. -/
def insertAlias (addressOf : String → Option Address) (rows : List PseudonymityAliasRow)
    (row : PseudonymityAliasRow) : List PseudonymityAliasRow :=
  rows.filter (·.commentCid ≠ row.commentCid) ++
    [{ row with originalAuthorSignerAddress := addressOf row.originalAuthorPublicKey }]

def Write.apply (addressOf : String → Option Address) (t : DbTables) : Write → DbTables
  | .insertVotes votes => { t with votes := t.votes ++ votes }
  | .deleteVote author cid =>
    { t with votes := t.votes.filter fun vote =>
        ¬ (vote.commentCid = cid ∧ vote.authorSignerAddress = author) }
  | .insertComments comments => { t with comments := t.comments ++ comments }
  | .insertPseudonymityAliases aliases =>
    { t with pseudonymityAliases := aliases.foldl (insertAlias addressOf) t.pseudonymityAliases }
  | .insertCommentModerations moderations =>
    { t with commentModerations := t.commentModerations ++ moderations }
  | .insertCommentEdits edits => { t with commentEdits := t.commentEdits ++ edits }
  | .deleteCommentEditRow place => { t with commentEdits := t.commentEdits.eraseIdx place }
  | .removeCommentFromPendingApproval cid => t.clearPending cid
  | .purgeComment cid randomComment => t.purge cid randomComment
  | .approvePendingComment cid => (t.clearPending cid).assignNumbers cid
  | .assignNumbersForComment cid => t.assignNumbers cid
  | .upsertCommentUpdates updates =>
    { t with commentUpdates := updates.foldl upsertCommentUpdate t.commentUpdates }
  | .markCommentsAsPublishedToPostUpdates cids => t.setPublished (· ∈ cids) true
  | .forceUpdateOnAllComments => t.setPublished (fun _ => true) false
  | .forceUpdateOnAllCommentsWithCid cids => t.setPublished (· ∈ cids) false

end UpdateReads
end Pkc

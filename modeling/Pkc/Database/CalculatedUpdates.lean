import Pkc.Database.AuthorMemo
import Pkc.Library.Results

/-!
# The CommentUpdates of a batch

What was read for the comments of a batch is put together to one CommentUpdate for each of them.

* `calculateCommentUpdates` is the calculation, with the memo of authors it takes and leaves.
* `commentUpdateOf` is the CommentUpdate of one comment in terms of the tables alone.
* `calculateCommentUpdates_eq` says that a batch gives every comment that CommentUpdate, whatever
  other comments it has and whatever is in the memo, as long as the memo is right.
-/

set_option autoImplicit false

namespace Pkc
namespace UpdateReads

open GroupedReads Results

/-! ## The members of a CommentUpdate -/

/-- All members but the signature, the timestamp and the pages of replies. -/
structure CalculatedCommentUpdate where
  cid : Cid
  number : Option Nat
  postNumber : Option Nat
  upvoteCount : Nat
  downvoteCount : Nat
  replyCount : Nat
  childCount : Nat
  flairs : Option Json
  flags : Flag → Option Bool
  reason : Option String
  /-- `author.community`. -/
  authorCommunity : Json.Fields
  lastChildCid : Option Cid
  lastReplyTimestamp : Option Nat
  edit : Option CommentEdit
  approved : Option Bool
  /-- What else the challenge has seeded. -/
  rest : Json.Fields

def ModEdits.toFields (edits : ModEdits) : Json.Fields :=
  (edits.banExpiresAt.map fun time => ("banExpiresAt", Json.num time)).toList ++
    (edits.flairs.map fun flairs => ("flairs", flairs)).toList

/-- The author as the object it is. -/
def CommunityAuthor.toFields (author : CommunityAuthor) : Json.Fields :=
  match author.karma with
  | none => author.modEdits.toFields
  | some karma =>
    [("postScore", Json.num karma.postScore), ("replyScore", Json.num karma.replyScore),
      ("lastCommentCid", Json.str karma.lastCommentCid)] ++ author.modEdits.toFields ++
      [("firstCommentTimestamp", Json.num karma.firstCommentTimestamp)]

/-- What was read for a comment. -/
structure CommentReads where
  votes : Option VoteCounts
  counts : Option ReplyCounts
  lastReplyTimestamp : Option Nat
  lastChildCid : Option Cid
  moderation : Option ModerationSummary
  authorEdit : Option CommentEdit
  numbers : Option CommentNumbers

/-- What a moderator has set comes before what the challenge has seeded.  A comment that was
disapproved counts as removed, unless a moderator has said otherwise. -/
def calculatedCommentUpdate (c : CommentsTableRow) (author : CommunityAuthor)
    (reads : CommentReads) : CalculatedCommentUpdate :=
  let seed := c.challengeCommentUpdate
  let moderation := reads.moderation.getD ModerationSummary.empty
  let voteCounts := reads.votes.getD ⟨0, 0⟩
  let replyCounts := reads.counts.getD ⟨0, 0⟩
  { cid := c.cid
    number := reads.numbers.bind (·.number)
    postNumber := reads.numbers.bind (·.postNumber)
    upvoteCount := voteCounts.upvoteCount
    downvoteCount := voteCounts.downvoteCount
    replyCount := replyCounts.replyCount
    childCount := replyCounts.childCount
    flairs := moderation.flairs <|> reads.authorEdit.bind (·.flairs) <|> seed.flairs
    flags := fun flag => moderation.flags flag <|>
      (if flag = .removed ∧ moderation.approved = some false then some true else none) <|>
      seed.flags flag
    reason := moderation.reason <|> seed.reason
    authorCommunity := Json.spread seed.community author.toFields
    lastChildCid := reads.lastChildCid
    lastReplyTimestamp := reads.lastReplyTimestamp
    edit := reads.authorEdit
    approved := moderation.approved <|> seed.approved
    rest := seed.rest }

/-! ## The calculation -/

namespace DbTables

variable (t : DbTables) (addressOf : String → Option Address) (address : String)

/-- What the batch has read for one of its comments. -/
def readsOf (comments : List CommentsTableRow) (cid : Cid) : CommentReads :=
  let cids := comments.map (·.cid)
  { votes := t.queryVoteCountsByCids cids cid
    counts := t.queryReplyCountsByParentCids address cids cid
    lastReplyTimestamp := t.queryLastReplyTimestampsByParentCids address cids cid
    lastChildCid := t.queryLastChildCidsByParentCids address cids cid
    moderation := t.queryModerationSummariesByCids cids cid
    authorEdit := t.queryLatestAuthorEditsByCids comments cid
    numbers := t.queryCommentNumbersByCids cids cid }

/-- One turn of the loop over the batch. -/
def calculateEntry (authorByCid : Cid → Option CommunityAuthor) (entries : List Entry)
    (entry : Entry) : Except String (Cid × CalculatedCommentUpdate) :=
  match authorByCid entry.comment.cid with
  | none => .error "Failed to query author.community in queryCalculatedCommentUpdate"
  | some author => .ok (entry.comment.cid, calculatedCommentUpdate entry.comment author
      (t.readsOf address (entries.map (·.comment)) entry.comment.cid))

/-- The first comment of the batch whose row is not found. -/
def missingRow (entries : List Entry) : Option Entry :=
  let metaByCid := t.commentsByCids (entries.map (·.comment.cid))
  entries.find? fun entry => (metaByCid entry.comment.cid).isNone

/-- `_calculateCommentUpdates`. -/
def calculateCommentUpdates (generation : Nat) (entries : List Entry) (memo : CommunityAuthorMemo) :
    Except String ((Cid → Option CalculatedCommentUpdate) × CommunityAuthorMemo) :=
  if entries.isEmpty then .ok (fun _ => none, memo)
  else
    let authors := t.queryCommunityAuthorsForCommentUpdates addressOf generation entries memo
    match t.missingRow entries with
    | some entry => .error ("Failed to query row metadata for comment " ++ entry.comment.cid)
    | none =>
      (entries.mapM (t.calculateEntry address authors.1 entries)).map fun updates =>
        (collect updates, authors.2)

def queryCalculatedCommentUpdates (generation : Nat) (comments : List CommentsTableRow)
    (memo : CommunityAuthorMemo) :
    Except String ((Cid → Option CalculatedCommentUpdate) × CommunityAuthorMemo) :=
  t.calculateCommentUpdates addressOf address generation (entriesOf comments) memo

/-- The batch of one. -/
def queryCalculatedCommentUpdate (generation : Nat) (entry : Entry) :
    Except String (Option CalculatedCommentUpdate) :=
  (t.calculateCommentUpdates addressOf address generation [entry] createCommunityAuthorMemo).map
    fun result => result.1 entry.comment.cid

/-! ## What a batch calculates -/

/-- What there is to read for a comment. -/
def ownReads (c : CommentsTableRow) : CommentReads where
  votes := group voteCounts (t.votes.filter (·.commentCid = c.cid))
  counts := group replyCounts (t.descendantsBelow (communityIdentityClause address) c.cid)
  lastReplyTimestamp := (group lastTimestamp (t.descendantsBelow (notPending address) c.cid)).join
  lastChildCid := (group newestChild ((t.lastChildCandidates address).filter (·.1 = c.cid))).join
  moderation := group ModerationSummary.empty.firsts (t.moderationsOf c.cid).reverse
  authorEdit := t.latestAuthorEdit c
  numbers := some (t.commentNumbers c)

/-- What is known of the author of a comment. -/
def authorOf (c : CommentsTableRow) : Option CommunityAuthor :=
  t.queryCommunityAuthorByAddresses (t.needOf addressOf ⟨c, c.authorName⟩)

def commentUpdateOf (c : CommentsTableRow) : Option CalculatedCommentUpdate :=
  (t.authorOf addressOf c).map fun author => calculatedCommentUpdate c author (t.ownReads address c)

variable {t addressOf} {comments : List CommentsTableRow} {c : CommentsTableRow}
  {generation : Nat} {memo : CommunityAuthorMemo}

theorem readsOf_eq (hvalid : t.Valid) (hsub : comments ⊆ t.comments) (hc : c ∈ comments) :
    t.readsOf address comments c.cid = t.ownReads address c := by
  have hcid : c.cid ∈ comments.map (·.cid) := List.mem_map_of_mem hc
  rw [readsOf, ownReads]
  simp only [t.queryVoteCountsByCids_eq hcid, t.queryReplyCountsByParentCids_eq address hcid,
    t.queryLastReplyTimestampsByParentCids_eq address hcid,
    t.queryLastChildCidsByParentCids_eq address hcid, t.queryModerationSummariesByCids_eq hcid,
    queryLatestAuthorEditsByCids_eq hvalid hsub hc,
    queryCommentNumbersByCids_eq hvalid (hsub hc) hcid]

/-- The author of a comment that is there has at least its karma. -/
theorem isSome_authorOf (hc : c ∈ t.comments) : (t.authorOf addressOf c).isSome = true := by
  have hkarma : c ∈ t.commentsBy (t.needOf addressOf ⟨c, c.authorName⟩).karma := by
    refine mem_commentsBy.2 ⟨hc, ?_⟩
    rw [needOf]
    cases t.pseudonymityAliases.find? (·.commentCid = c.cid) with
    | some row => exact List.mem_singleton_self _
    | none => exact self_mem_authorAddresses _
  have hsome : (t.karmaOfComments
      (t.commentsBy (t.needOf addressOf ⟨c, c.authorName⟩).karma)).isSome = true := by
    rw [karmaOfComments]
    generalize t.commentsBy _ = rows at hkarma
    cases hlast : rows.argmax (·.rowid) with
    | none => simp [List.argmax_eq_none.1 hlast] at hkarma
    | some last =>
      cases hfirst : rows.argmin (·.rowid) with
      | none => simp [List.argmin_eq_none.1 hfirst] at hkarma
      | some first => rfl
  rw [authorOf, queryCommunityAuthorByAddresses, communityAuthor, if_neg]
  · rfl
  · simp [Option.isSome_iff_ne_none.1 hsome]

/-- **A batch gives each of its comments what the comment alone would get**, and leaves a memo that
is right. -/
theorem calculateCommentUpdates_eq (hvalid : t.Valid) (hplain : t.PlainAddresses addressOf)
    (hsub : comments ⊆ t.comments) (hmemo : t.MemoOk generation memo) :
    ∃ updates memo',
      t.calculateCommentUpdates addressOf address generation (entriesOf comments) memo =
        .ok (updates, memo') ∧
      t.MemoOk generation memo' ∧
      ∀ c ∈ comments, updates c.cid = t.commentUpdateOf addressOf address c := by
  rw [calculateCommentUpdates]
  split
  · rename_i hempty
    refine ⟨_, _, rfl, hmemo, fun c hc => ?_⟩
    rw [List.isEmpty_iff, entriesOf, List.map_eq_nil_iff] at hempty
    rw [hempty] at hc
    cases hc
  · obtain ⟨hauthors, hmemo'⟩ :=
      queryCommunityAuthorsForCommentUpdates_eq hvalid hplain hsub hmemo
    have hcomments : (entriesOf comments).map (·.comment) = comments := by
      simp [entriesOf, Function.comp_def]
    have hfound : t.missingRow (entriesOf comments) = none := by
      refine List.find?_eq_none.2 fun entry hentry => ?_
      obtain ⟨c, hc, rfl⟩ := List.mem_map.1 hentry
      rw [commentsByCids_eq hvalid (hsub hc) (List.mem_map.2 ⟨_, hentry, rfl⟩)]
      simp
    rw [hfound]
    generalize t.queryCommunityAuthorsForCommentUpdates addressOf generation (entriesOf comments)
      memo = authors at hauthors hmemo'
    -- every turn of the loop finds its author
    have hentry : ∀ entry ∈ entriesOf comments,
        ∃ update, t.commentUpdateOf addressOf address entry.comment = some update ∧
          t.calculateEntry address authors.1 (entriesOf comments) entry =
            .ok (entry.comment.cid, update) := by
      intro entry hentry
      obtain ⟨c, hc, rfl⟩ := List.mem_map.1 hentry
      obtain ⟨author, hauthor⟩ := Option.isSome_iff_exists.1 (isSome_authorOf (hsub hc))
      refine ⟨_, by rw [commentUpdateOf, hauthor, Option.map_some], ?_⟩
      have hread : authors.1 c.cid = some author := (hauthors c hc).trans hauthor
      simp only [calculateEntry, hread, hcomments, readsOf_eq address hvalid hsub hc]
    obtain ⟨updates, hupdates⟩ := exists_mapM_eq_ok fun entry h =>
      (hentry entry h).elim fun update h => ⟨_, h.2⟩
    refine ⟨collect updates, authors.2, by simp only [hupdates]; rfl, hmemo', fun c hc => ?_⟩
    refine foldl_set_eq (fun _ => t.commentUpdateOf addressOf address c) (fun update hmem => ?_)
      (.inl ?_)
    · obtain ⟨entry, hin, heq⟩ := exists_of_mem_right hupdates hmem
      obtain ⟨own, hown, hcalculated⟩ := hentry entry hin
      obtain ⟨hcid, rfl⟩ := Prod.mk.inj (Except.ok.inj (hcalculated.symm.trans heq))
      obtain ⟨other, hother, rfl⟩ := List.mem_map.1 hin
      rw [← hown, hvalid.eq_of_cid (hsub hother) (hsub hc) hcid]
    · have hin : ⟨c, c.authorName⟩ ∈ entriesOf comments := List.mem_map.2 ⟨c, hc, rfl⟩
      obtain ⟨update, -, hcalculated⟩ := hentry _ hin
      obtain ⟨row, hrow, heq⟩ := exists_of_mem_left hupdates hin
      obtain rfl := Except.ok.inj (hcalculated.symm.trans heq)
      exact ⟨update, hrow⟩

end DbTables

end UpdateReads
end Pkc

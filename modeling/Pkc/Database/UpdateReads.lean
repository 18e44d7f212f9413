import Mathlib.Algebra.Order.Group.Nat
import Mathlib.Data.List.MinMax
import Mathlib.Data.List.Nodup
import Mathlib.Data.Nat.Cast.Order.Basic
import Pkc.Library.GroupedReads
import Pkc.Library.Json
import Pkc.Publish.Tables

/-!
# What a CommentUpdate is calculated from

The fields of a CommentUpdate are read for a whole batch of comments at once, with one statement for
each group of fields.  This file has the tables and the reads, all but the one of
`author.community`.

* `DbTables` are the tables, each in the order of its rowids, and `Valid` what their keys promise.
* `queryVoteCountsByCids` and the other reads are the statements for a batch.
* `queryVoteCountsByCids_eq` and the like say what each of them reads for one of the comments, which
  depends neither on the other comments of the batch nor on where it is cut.

The statement that follows the replies down the tree goes as many levels as there are comments.
-/

set_option autoImplicit false

namespace Pkc
namespace UpdateReads

open GroupedReads

/-! ## The tables -/

abbrev Address := String

inductive Flag
  | spoiler
  | pinned
  | locked
  | archived
  | removed
  | nsfw
deriving DecidableEq

/-- What a challenge has seeded the CommentUpdate with. -/
structure ChallengeCommentUpdate where
  flags : Flag → Option Bool
  approved : Option Bool
  flairs : Option Json
  reason : Option String
  /-- `author.community`. -/
  community : Json.Fields
  /-- Members that are not known here. -/
  rest : Json.Fields

def ChallengeCommentUpdate.nothing : ChallengeCommentUpdate :=
  ⟨fun _ => none, none, none, none, [], []⟩

structure CommentsTableRow where
  rowid : Nat
  cid : Cid
  parentCid : Option Cid
  depth : Nat
  timestamp : Nat
  authorSignerAddress : Address
  /-- `getAuthorNameFromWire` of the author. -/
  authorName : Option String
  communityPublicKey : Option String
  communityName : Option String
  pendingApproval : Bool
  number : Option Nat
  postNumber : Option Nat
  challengeCommentUpdate : ChallengeCommentUpdate
  insertedAt : Nat

structure VotesTableRow where
  commentCid : Cid
  authorSignerAddress : Address
  vote : Int
  insertedAt : Nat

/-- The publication of an edit, as far as something reads it. -/
structure CommentEdit where
  deleted : Option Bool
  flairs : Option Json
  rest : Json.Fields

structure CommentEditsTableRow where
  commentCid : Cid
  authorSignerAddress : Address
  isAuthorEdit : Bool
  edit : CommentEdit
  insertedAt : Nat

/-- `commentModeration.author`. -/
structure AuthorModEdit where
  banExpiresAt : Option Nat
  flairs : Option Json

structure CommentModerationTableRow where
  rowid : Nat
  commentCid : Cid
  reason : Option String
  flairs : Option Json
  approved : Option Bool
  flags : Flag → Option Bool
  author : Option AuthorModEdit
  targetAuthorSignerAddress : Option Address
  targetAuthorDomain : Option String
  insertedAt : Nat

structure PseudonymityAliasRow where
  commentCid : Cid
  originalAuthorPublicKey : String
  /-- Derived from the public key when the row was inserted. -/
  originalAuthorSignerAddress : Option Address
  originalAuthorName : Option String

structure CommentUpdatesRow where
  cid : Cid
  /-- `edit.deleted`. -/
  deleted : Option Bool
  removed : Option Bool
  approved : Option Bool
  childCount : Option Nat
  lastChildCid : Option Cid
  number : Option Nat
  postNumber : Option Nat
  /-- `commentCids` of the sorts in `replies`. -/
  replies : List (List Cid)
  updatedAt : Nat
  insertedAt : Nat
  publishedToPostUpdatesMFS : Bool

/-- The same domain under either of the two top-level names. -/
def getEquivalentCommunityAddresses (address : String) : List String :=
  let withoutEnd := String.ofList (address.toList.take (address.length - 4))
  if address.toLower.endsWith ".bso" then [address, withoutEnd ++ ".eth"]
  else if address.toLower.endsWith ".eth" then [address, withoutEnd ++ ".bso"]
  else [address]

def isStringDomain (address : String) : Bool := address.toList.contains '.'

/-- `_communityIdentityClause`, of the community with the address. -/
def communityIdentityClause (address : String) (c : CommentsTableRow) : Bool :=
  if isStringDomain address then
    c.communityName.all (· ∈ getEquivalentCommunityAddresses address)
  else c.communityPublicKey.all (· = address)

/-- How many variables the clause has. -/
def identityVariables (address : String) : Nat :=
  if isStringDomain address then (getEquivalentCommunityAddresses address).length else 1

theorem identityVariables_le (address : String) : identityVariables address ≤ 2 := by
  rw [identityVariables, getEquivalentCommunityAddresses]
  repeat' split
  all_goals simp

structure DbTables where
  comments : List CommentsTableRow
  votes : List VotesTableRow
  commentEdits : List CommentEditsTableRow
  commentModerations : List CommentModerationTableRow
  pseudonymityAliases : List PseudonymityAliasRow
  commentUpdates : List CommentUpdatesRow

/-- The rows are in the order of their rowids, and the keys are unique.  A name that is there is not
empty, as its schema says. -/
structure DbTables.Valid (t : DbTables) : Prop where
  commentRowids : t.comments.Pairwise (·.rowid < ·.rowid)
  commentCids : (t.comments.map CommentsTableRow.cid).Nodup
  moderationRowids : t.commentModerations.Pairwise (·.rowid < ·.rowid)
  aliasCids : (t.pseudonymityAliases.map PseudonymityAliasRow.commentCid).Nodup
  updateCids : (t.commentUpdates.map CommentUpdatesRow.cid).Nodup
  names : ∀ c ∈ t.comments, c.authorName ≠ some ""

theorem DbTables.Valid.eq_of_cid {t : DbTables} (h : t.Valid) {a b : CommentsTableRow}
    (ha : a ∈ t.comments) (hb : b ∈ t.comments) (heq : a.cid = b.cid) : a = b :=
  List.inj_on_of_nodup_map h.commentCids ha hb heq

/-! ## Chunks -/

/-- The variables a statement may have. -/
def maxVariables : Nat := 4096

theorem maxVariables_pos : 0 < maxVariables := by decide

/-! ## Votes -/

structure VoteCounts where
  upvoteCount : Nat
  downvoteCount : Nat
deriving DecidableEq

def voteCounts (rows : List VotesTableRow) : VoteCounts :=
  ⟨rows.countP (·.vote = 1), rows.countP (·.vote = -1)⟩

namespace DbTables

def queryVoteCountsByCids (t : DbTables) (cids : List Cid) : Cid → Option VoteCounts :=
  readAll maxVariables cids fun chunk =>
    groupBy VotesTableRow.commentCid voteCounts (whereIn VotesTableRow.commentCid t.votes chunk)

theorem queryVoteCountsByCids_eq (t : DbTables) {cids : List Cid} {cid : Cid} (h : cid ∈ cids) :
    t.queryVoteCountsByCids cids cid = group voteCounts (t.votes.filter (·.commentCid = cid)) :=
  readAll_whereIn maxVariables_pos h

end DbTables

/-! ## Replies -/

/-- Neither removed nor deleted nor disapproved. -/
def CommentUpdatesRow.present (update : CommentUpdatesRow) : Bool :=
  update.removed ≠ some true && update.deleted ≠ some true && update.approved ≠ some false

/-- A comment below `root`. -/
structure Descendant where
  root : Cid
  cid : Cid
  timestamp : Nat
  level : Nat
  present : Bool

structure ReplyCounts where
  replyCount : Nat
  childCount : Nat
deriving DecidableEq

def replyCounts (rows : List Descendant) : ReplyCounts :=
  ⟨rows.countP (·.present), rows.countP fun row => row.level = 1 && row.present⟩

/-- Of those that are present. -/
def lastTimestamp (rows : List Descendant) : Option Nat :=
  ((rows.filter (·.present)).map (·.timestamp)).max?

namespace DbTables

def updateOf (t : DbTables) (cid : Cid) : Option CommentUpdatesRow :=
  t.commentUpdates.find? (·.cid = cid)

/-- The replies that have a CommentUpdate and are walked over, each with its parent. -/
def walkedReplies (t : DbTables) (walked : CommentsTableRow → Bool) :
    List (Cid × CommentsTableRow × CommentUpdatesRow) :=
  t.comments.filterMap fun c =>
    if walked c then
      c.parentCid.bind fun parent => (t.updateOf c.cid).map fun update => (parent, c, update)
    else none

def descendant (root : Cid) (level : Nat) (c : CommentsTableRow) (update : CommentUpdatesRow) :
    Descendant := ⟨root, c.cid, c.timestamp, level, update.present⟩

/-- A reply as a descendant of its parent. -/
def child (row : Cid × CommentsTableRow × CommentUpdatesRow) : Descendant :=
  descendant row.1 1 row.2.1 row.2.2

/-- The next level below a comment. -/
def below (t : DbTables) (walked : CommentsTableRow → Bool) (node : Descendant) :
    List Descendant :=
  ((t.walkedReplies walked).filter (·.1 = node.cid)).map fun (_, c, update) =>
    descendant node.root (node.level + 1) c update

/-- `WITH RECURSIVE descendants`: so many levels. -/
def descendants (t : DbTables) (walked : CommentsTableRow → Bool) :
    Nat → List Descendant → List Descendant
  | 0, _ => []
  | levels + 1, nodes => nodes ++ t.descendants walked levels (nodes.flatMap (t.below walked))

/-- The descendants of the parents in the chunk. -/
def descendantsOf (t : DbTables) (walked : CommentsTableRow → Bool) (chunk : List (Option Cid)) :
    List Descendant :=
  t.descendants walked t.comments.length <|
    (whereIn Prod.fst (t.walkedReplies walked) chunk).map child

/-- In the community, and not waiting for an approval. -/
def notPending (address : String) (c : CommentsTableRow) : Bool :=
  communityIdentityClause address c && !c.pendingApproval

def queryReplyCountsByParentCids (t : DbTables) (address : String)
    (parentCids : List Cid) : Cid → Option ReplyCounts :=
  readAll (maxVariables - identityVariables address * 2) parentCids fun chunk =>
    groupBy Descendant.root replyCounts (t.descendantsOf (communityIdentityClause address) chunk)

def queryLastReplyTimestampsByParentCids (t : DbTables) (address : String)
    (parentCids : List Cid) (cid : Cid) : Option Nat :=
  (readAll (maxVariables - identityVariables address * 2) parentCids (fun chunk =>
    groupBy Descendant.root lastTimestamp
      (t.descendantsOf (notPending address) chunk)) cid).join

/-- The replies that may be the last child of their parent. -/
def lastChildCandidates (t : DbTables) (address : String) :
    List (Cid × CommentsTableRow × CommentUpdatesRow) :=
  (t.walkedReplies (notPending address)).filter (·.2.2.present)

/-- The one with the largest rowid. -/
def newestChild (rows : List (Cid × CommentsTableRow × CommentUpdatesRow)) : Option Cid :=
  (rows.argmax fun row => row.2.1.rowid).map fun row => row.2.1.cid

def queryLastChildCidsByParentCids (t : DbTables) (address : String)
    (parentCids : List Cid) (cid : Cid) : Option Cid :=
  (readAll (maxVariables - identityVariables address) parentCids (fun chunk =>
    groupBy Prod.fst newestChild (whereIn Prod.fst (t.lastChildCandidates address) chunk))
    cid).join

/-! ### What is read for one parent -/

variable (t : DbTables) (walked : CommentsTableRow → Bool)

theorem filter_below (node : Descendant) (k : Cid) :
    (t.below walked node).filter (·.root = k) =
      if node.root = k then t.below walked node else [] := by
  rw [below, List.filter_map]
  split
  · rename_i hroot
    rw [List.filter_eq_self.2]
    intro row _
    simpa [descendant] using hroot
  · rename_i hroot
    rw [List.filter_eq_nil_iff.2, List.map_nil]
    intro row _
    simpa [descendant] using hroot

/-- The walk keeps the roots apart. -/
theorem filter_descendants (k : Cid) (levels : Nat) (nodes : List Descendant) :
    (t.descendants walked levels nodes).filter (·.root = k) =
      t.descendants walked levels (nodes.filter (·.root = k)) := by
  induction levels generalizing nodes with
  | zero => rfl
  | succ levels ih =>
    have hnext : (nodes.flatMap (t.below walked)).filter (·.root = k) =
        (nodes.filter (·.root = k)).flatMap (t.below walked) := by
      induction nodes with
      | nil => rfl
      | cons node nodes ihnodes =>
        rw [List.flatMap_cons, List.filter_append, filter_below, ihnodes]
        by_cases hroot : node.root = k <;> simp [hroot]
    rw [descendants, List.filter_append, ih, hnext, descendants]

theorem descendants_nil (levels : Nat) : t.descendants walked levels [] = [] := by
  induction levels with
  | zero => rfl
  | succ levels ih => exact ih

/-- All descendants of one comment. -/
def descendantsBelow (k : Cid) : List Descendant :=
  t.descendants walked t.comments.length
    (((t.walkedReplies walked).filter (·.1 = k)).map child)

theorem filter_descendantsOf (chunk : List (Option Cid)) (k : Cid) :
    (t.descendantsOf walked chunk).filter (·.root = k) =
      if some k ∈ chunk then t.descendantsBelow walked k else [] := by
  have hroots : ∀ rows : List (Cid × CommentsTableRow × CommentUpdatesRow),
      (rows.map child).filter (·.root = k) = (rows.filter (·.1 = k)).map child := by
    intro rows
    rw [List.filter_map]
    rfl
  rw [descendantsOf, filter_descendants, hroots, filter_whereIn]
  split
  · rfl
  · exact t.descendants_nil walked _

variable (address : String) {cids : List Cid} {cid : Cid}

theorem variables_pos : 0 < maxVariables - identityVariables address * 2 := by
  have hle := identityVariables_le address
  rw [maxVariables]
  omega

theorem queryReplyCountsByParentCids_eq (h : cid ∈ cids) :
    t.queryReplyCountsByParentCids address cids cid =
      group replyCounts (t.descendantsBelow (communityIdentityClause address) cid) :=
  readAll_groupBy (variables_pos address) _ (t.filter_descendantsOf _) h

theorem queryLastReplyTimestampsByParentCids_eq (h : cid ∈ cids) :
    t.queryLastReplyTimestampsByParentCids address cids cid =
      (group lastTimestamp
        (t.descendantsBelow (notPending address) cid)).join :=
  congrArg Option.join (readAll_groupBy (variables_pos address) _ (t.filter_descendantsOf _) h)

theorem queryLastChildCidsByParentCids_eq (h : cid ∈ cids) :
    t.queryLastChildCidsByParentCids address cids cid =
      (group newestChild ((t.lastChildCandidates address).filter (·.1 = cid))).join := by
  have hle := identityVariables_le address
  have hpos : 0 < maxVariables - identityVariables address := by
    rw [maxVariables]
    omega
  exact congrArg Option.join (readAll_whereIn hpos h)

end DbTables

/-! ## Moderations -/

structure ModerationSummary where
  reason : Option String
  flairs : Option Json
  approved : Option Bool
  flags : Flag → Option Bool

namespace ModerationSummary

def empty : ModerationSummary := ⟨none, none, none, fun _ => none⟩

/-- What a moderation says about fields that no newer one has said anything about. -/
def fill (summary : ModerationSummary) (row : CommentModerationTableRow) : ModerationSummary where
  reason := summary.reason <|> row.reason
  flairs := summary.flairs <|> row.flairs
  approved := summary.approved <|> row.approved
  flags := fun flag => summary.flags flag <|> row.flags flag

/-- The first value of each field, for moderations with the newest first. -/
def firsts (summary : ModerationSummary) (rows : List CommentModerationTableRow) :
    ModerationSummary where
  reason := summary.reason <|> rows.findSome? (·.reason)
  flairs := summary.flairs <|> rows.findSome? (·.flairs)
  approved := summary.approved <|> rows.findSome? (·.approved)
  flags := fun flag => summary.flags flag <|> rows.findSome? (·.flags flag)

/-- A row of the batch. -/
def add (summary : Option ModerationSummary) (row : CommentModerationTableRow) :
    Option ModerationSummary := some ((summary.getD empty).fill row)

theorem findSome?_cons_or {α β : Type} (f : α → Option β) (a : α) (l : List α) (x : Option β) :
    ((x <|> f a) <|> l.findSome? f) = (x <|> (a :: l).findSome? f) := by
  cases x <;> cases hfa : f a <;> simp [hfa]

theorem firsts_fill (summary : ModerationSummary) (row : CommentModerationTableRow)
    (rows : List CommentModerationTableRow) :
    (summary.fill row).firsts rows = summary.firsts (row :: rows) := by
  simp only [firsts, fill, ModerationSummary.mk.injEq]
  exact ⟨findSome?_cons_or _ _ _ _, findSome?_cons_or _ _ _ _, findSome?_cons_or _ _ _ _,
    funext fun flag => findSome?_cons_or (·.flags flag) row rows _⟩

theorem foldl_add_some (rows : List CommentModerationTableRow) (summary : ModerationSummary) :
    rows.foldl add (some summary) = some (summary.firsts rows) := by
  induction rows generalizing summary with
  | nil => simp [firsts]
  | cons row rows ih =>
    rw [List.foldl_cons, add, Option.getD_some, ih, firsts_fill]

theorem foldl_add (rows : List CommentModerationTableRow) :
    rows.foldl add none = group empty.firsts rows := by
  cases rows with
  | nil => rfl
  | cons row rows =>
    rw [List.foldl_cons]
    show rows.foldl add (some (empty.fill row)) = some (empty.firsts (row :: rows))
    rw [foldl_add_some, firsts_fill]

theorem firsts_firsts (summary : ModerationSummary) (rows : List CommentModerationTableRow) :
    (summary.firsts rows).firsts rows = summary.firsts rows := by
  simp [firsts, Option.or_assoc]

end ModerationSummary

namespace DbTables

variable (t : DbTables)

/-- `ORDER BY rowid DESC`. -/
def moderationsNewestFirst (chunk : List (Option Cid)) : List CommentModerationTableRow :=
  (whereIn CommentModerationTableRow.commentCid t.commentModerations chunk).reverse

def queryModerationSummariesByCids (cids : List Cid) : Cid → Option ModerationSummary :=
  readBy maxVariables cids CommentModerationTableRow.commentCid ModerationSummary.add
    (fun _ => none) t.moderationsNewestFirst

def moderationsOf (cid : Cid) : List CommentModerationTableRow :=
  t.commentModerations.filter (·.commentCid = cid)

variable {cids : List Cid} {cid : Cid}

theorem queryModerationSummariesByCids_eq (h : cid ∈ cids) :
    t.queryModerationSummariesByCids cids cid =
      group ModerationSummary.empty.firsts (t.moderationsOf cid).reverse := by
  rw [← ModerationSummary.foldl_add]
  refine readBy_eq maxVariables_pos (fun cid => (t.moderationsOf cid).reverse)
    (fun chunk k => ?_) h ?_
  · rw [moderationsNewestFirst, List.filter_reverse, filter_whereIn]
    split <;> rfl
  · rw [ModerationSummary.foldl_add, group]
    split
    · rename_i hempty
      rw [List.isEmpty_iff.1 hempty]
      rfl
    · rw [ModerationSummary.foldl_add_some, ModerationSummary.firsts_firsts]

/-- `ROW_NUMBER()` among the moderations that set the flag, or among those that do not. -/
def flagRank (flag : Flag) (rows : List CommentModerationTableRow)
    (row : CommentModerationTableRow) : Nat :=
  (rows.filter fun other =>
    (other.flags flag).isSome = (row.flags flag).isSome && row.rowid ≤ other.rowid).length

def queryCommentFlagsSetByMod (cid : Cid) (flag : Flag) : Option Bool :=
  let rows := t.moderationsOf cid
  ((rows.filter fun row => (row.flags flag).isSome && flagRank flag rows row = 1).filterMap
    (·.flags flag)).max?

/-- `_queryIsCommentApproved`. -/
def queryIsCommentApproved (cid : Cid) : Option Bool :=
  ((t.moderationsOf cid).filter (·.approved.isSome)).getLast?.bind (·.approved)

end DbTables

/-! ### The same per comment -/

theorem findSome?_reverse {ρ α : Type} (f : ρ → Option α) (rows : List ρ) :
    rows.reverse.findSome? f = (rows.filter fun row => (f row).isSome).getLast?.bind f := by
  induction rows using List.reverseRecOn with
  | nil => rfl
  | append_singleton rows row ih =>
    rw [List.reverse_append, List.reverse_singleton, List.singleton_append, List.findSome?_cons, ih,
      List.filter_append]
    cases hrow : f row <;> simp [hrow]

/-- Only the last row has no other row at or behind it. -/
theorem filter_rank_eq_one {ρ : Type} (rowid : ρ → Nat) {rows : List ρ}
    (hrows : rows.Pairwise (rowid · < rowid ·)) :
    (rows.filter fun row => (rows.filter (rowid row ≤ rowid ·)).length = 1) =
      rows.getLast?.toList := by
  rcases rows.eq_nil_or_concat with rfl | ⟨before, last, hsplit⟩
  · rfl
  · rw [List.concat_eq_append] at hsplit
    subst hsplit
    obtain ⟨-, -, hlast⟩ := List.pairwise_append.1 hrows
    have hbelow : ∀ row ∈ before, rowid row < rowid last := fun row hrow =>
      hlast row hrow last (List.mem_singleton_self _)
    have hlastRank : ((before ++ [last]).filter (rowid last ≤ rowid ·)).length = 1 := by
      have hnone : before.filter (rowid last ≤ rowid ·) = [] :=
        List.filter_eq_nil_iff.2 fun row hrow => by simpa using hbelow row hrow
      simp [List.filter_append, hnone]
    have hothers : (before.filter fun row =>
        ((before ++ [last]).filter (rowid row ≤ rowid ·)).length = 1) = [] := by
      refine List.filter_eq_nil_iff.2 fun row hrow => ?_
      have hself : row ∈ before.filter (rowid row ≤ rowid ·) := by simp [hrow]
      have hpos := List.length_pos_of_mem hself
      have hlen : ((before ++ [last]).filter (rowid row ≤ rowid ·)).length =
          (before.filter (rowid row ≤ rowid ·)).length + 1 := by
        have hin : [last].filter (rowid row ≤ rowid ·) = [last] := by simp [(hbelow row hrow).le]
        rw [List.filter_append, List.length_append, hin, List.length_singleton]
      rw [decide_eq_true_eq, hlen]
      omega
    have hin : [last].filter (fun row =>
        ((before ++ [last]).filter (rowid row ≤ rowid ·)).length = 1) = [last] := by
      refine List.filter_eq_self.2 fun row hrow => ?_
      rw [List.mem_singleton.1 hrow]
      exact decide_eq_true hlastRank
    rw [List.filter_append, hothers, hin, List.getLast?_concat]
    rfl

namespace DbTables

variable {t : DbTables} {cids : List Cid} {cid : Cid}

theorem queryCommentFlagsSetByMod_eq (hvalid : t.Valid) (cid : Cid) (flag : Flag) :
    t.queryCommentFlagsSetByMod cid flag =
      (t.moderationsOf cid).reverse.findSome? (·.flags flag) := by
  have hrank : ∀ row : CommentModerationTableRow, (row.flags flag).isSome = true →
      flagRank flag (t.moderationsOf cid) row =
        (((t.moderationsOf cid).filter (·.flags flag |>.isSome)).filter
          (row.rowid ≤ ·.rowid)).length := by
    intro row hrow
    rw [flagRank, List.filter_filter]
    refine congrArg List.length (List.filter_congr fun other _ => ?_)
    simp [hrow, Bool.and_comm]
  have hsorted : ((t.moderationsOf cid).filter (·.flags flag |>.isSome)).Pairwise
      (·.rowid < ·.rowid) := (hvalid.moderationRowids.filter _).filter _
  have hlast := filter_rank_eq_one CommentModerationTableRow.rowid hsorted
  rw [List.filter_filter] at hlast
  have hrows : (t.moderationsOf cid).filter (fun row =>
      (row.flags flag).isSome && flagRank flag (t.moderationsOf cid) row = 1) =
      ((t.moderationsOf cid).filter (·.flags flag |>.isSome)).getLast?.toList := by
    rw [← hlast]
    refine List.filter_congr fun row _ => ?_
    by_cases hrow : (row.flags flag).isSome = true
    · rw [hrank row hrow, Bool.and_comm]
    · simp [hrow]
  rw [queryCommentFlagsSetByMod, hrows, findSome?_reverse]
  cases ((t.moderationsOf cid).filter (·.flags flag |>.isSome)).getLast? with
  | none => rfl
  | some row => cases hflag : row.flags flag <;> simp [hflag]

theorem queryIsCommentApproved_eq (cid : Cid) :
    t.queryIsCommentApproved cid = (t.moderationsOf cid).reverse.findSome? (·.approved) :=
  (findSome?_reverse _ _).symm

end DbTables

/-! ## Edits of the author -/

/-- What a row of the batch does: the newest edit stays, and edits by others do not count. -/
def addAuthorEdit (authorOf : Cid → Option Address) (held : Option CommentEdit)
    (row : CommentEditsTableRow) : Option CommentEdit :=
  if held.isSome || authorOf row.commentCid ≠ some row.authorSignerAddress then held
  else some row.edit

theorem foldl_addAuthorEdit_some (authorOf : Cid → Option Address)
    (rows : List CommentEditsTableRow) (edit : CommentEdit) :
    rows.foldl (addAuthorEdit authorOf) (some edit) = some edit := by
  induction rows with
  | nil => rfl
  | cons row rows ih => rwa [List.foldl_cons, addAuthorEdit, if_pos (by simp)]

theorem foldl_addAuthorEdit_congr {authorOf authorOf' : Cid → Option Address}
    {rows : List CommentEditsTableRow}
    (h : ∀ row ∈ rows, authorOf row.commentCid = authorOf' row.commentCid)
    (held : Option CommentEdit) :
    rows.foldl (addAuthorEdit authorOf) held = rows.foldl (addAuthorEdit authorOf') held := by
  induction rows generalizing held with
  | nil => rfl
  | cons row rows ih =>
    rw [List.foldl_cons, List.foldl_cons, addAuthorEdit, addAuthorEdit, h row List.mem_cons_self]
    exact ih (fun other hother => h other (List.mem_cons_of_mem _ hother)) _

namespace DbTables

variable (t : DbTables)

def authorEditsNewestFirst (chunk : List (Option Cid)) : List CommentEditsTableRow :=
  (whereIn CommentEditsTableRow.commentCid (t.commentEdits.filter (·.isAuthorEdit)) chunk).reverse

/-- `new Map` of the comments, by their cids. -/
def authorsOf (comments : List CommentsTableRow) : Cid → Option Address :=
  collect (comments.map fun c => (c.cid, c.authorSignerAddress))

def queryLatestAuthorEditsByCids (comments : List CommentsTableRow) : Cid → Option CommentEdit :=
  readBy maxVariables (comments.map CommentsTableRow.cid) CommentEditsTableRow.commentCid
    (addAuthorEdit (authorsOf comments)) (fun _ => none) t.authorEditsNewestFirst

/-- The edits of one comment by its author, the newest first. -/
def latestAuthorEdit (c : CommentsTableRow) : Option CommentEdit :=
  (((t.commentEdits.filter (·.isAuthorEdit)).filter (·.commentCid = c.cid)).reverse).foldl
    (addAuthorEdit fun _ => some c.authorSignerAddress) none

variable {t} {comments : List CommentsTableRow} {c : CommentsTableRow}

theorem authorsOf_eq (hvalid : t.Valid) (hsub : comments ⊆ t.comments) (hc : c ∈ comments) :
    authorsOf comments c.cid = some c.authorSignerAddress := by
  refine foldl_set_eq (fun _ => some c.authorSignerAddress) (fun address hrow => ?_)
    (.inl ⟨c.authorSignerAddress, List.mem_map.2 ⟨c, hc, rfl⟩⟩)
  obtain ⟨other, hother, heq⟩ := List.mem_map.1 hrow
  obtain ⟨hcid, rfl⟩ := Prod.mk.inj heq
  rw [hvalid.eq_of_cid (hsub hother) (hsub hc) hcid]

theorem queryLatestAuthorEditsByCids_eq (hvalid : t.Valid) (hsub : comments ⊆ t.comments)
    (hc : c ∈ comments) :
    t.queryLatestAuthorEditsByCids comments c.cid = t.latestAuthorEdit c := by
  have hauthor : ∀ row ∈
      ((t.commentEdits.filter (·.isAuthorEdit)).filter (·.commentCid = c.cid)).reverse,
      authorsOf comments row.commentCid = (fun _ => some c.authorSignerAddress) row.commentCid := by
    intro row hrow
    have hcid : row.commentCid = c.cid := by
      simpa using (List.mem_filter.1 (List.mem_reverse.1 hrow)).2
    rw [hcid]
    exact authorsOf_eq hvalid hsub hc
  rw [queryLatestAuthorEditsByCids, latestAuthorEdit, ← foldl_addAuthorEdit_congr hauthor]
  refine readBy_eq maxVariables_pos (fun cid =>
    ((t.commentEdits.filter (·.isAuthorEdit)).filter (·.commentCid = cid)).reverse)
    (fun chunk k => ?_) (List.mem_map.2 ⟨c, hc, rfl⟩) ?_
  · rw [authorEditsNewestFirst, List.filter_reverse, filter_whereIn]
    split <;> rfl
  · generalize hresult : List.foldl _ none _ = result
    cases result with
    | none => exact hresult
    | some edit => exact foldl_addAuthorEdit_some _ _ _

end DbTables

/-! ## Numbers -/

structure CommentNumbers where
  number : Option Nat
  postNumber : Option Nat
deriving DecidableEq

/-- The number of a row, if it has been given one. -/
def positive (number : Option Nat) : Option Nat := number.filter (0 < ·)

namespace CommentsTableRow

def numbers (c : CommentsTableRow) : CommentNumbers :=
  if c.pendingApproval then ⟨none, none⟩ else ⟨positive c.number, positive c.postNumber⟩

/-- An earlier CommentUpdate may have what the row lacks. -/
def needsStoredNumbers (c : CommentsTableRow) : Bool :=
  !c.pendingApproval &&
    ((positive c.number).isNone || (c.depth = 0 && (positive c.postNumber).isNone))

/-- With the numbers of an earlier CommentUpdate. -/
def numbersWith (c : CommentsTableRow) (stored : Option CommentUpdatesRow) : CommentNumbers :=
  match stored with
  | none => c.numbers
  | some row =>
    ⟨c.numbers.number <|> positive row.number,
      if c.depth = 0 then c.numbers.postNumber <|> positive row.postNumber
      else c.numbers.postNumber⟩

end CommentsTableRow

namespace DbTables

variable (t : DbTables)

def commentsByCids (cids : List Cid) : Cid → Option CommentsTableRow :=
  readAll maxVariables cids fun chunk =>
    (whereIn CommentsTableRow.cid t.comments chunk).map fun c => (c.cid, c)

def commentUpdatesByCids (cids : List Cid) : Cid → Option CommentUpdatesRow :=
  readAll maxVariables cids fun chunk =>
    (whereIn CommentUpdatesRow.cid t.commentUpdates chunk).map fun row => (row.cid, row)

/-- `none` for a comment whose row is not found. -/
def queryCommentNumbersByCids (cids : List Cid) (cid : Cid) : Option CommentNumbers :=
  let metaByCid := t.commentsByCids cids
  let needStored := cids.filter fun cid => (metaByCid cid).any (·.needsStoredNumbers)
  (metaByCid cid).map fun c => c.numbersWith (t.commentUpdatesByCids needStored cid)

def commentNumbers (c : CommentsTableRow) : CommentNumbers :=
  c.numbersWith (if c.needsStoredNumbers then t.updateOf c.cid else none)

variable {t} {cids : List Cid} {c : CommentsTableRow}

theorem commentsByCids_eq (hvalid : t.Valid) (hc : c ∈ t.comments) (h : c.cid ∈ cids) :
    t.commentsByCids cids c.cid = some c := by
  have hread := readAll_eq maxVariables_pos (fun k => t.comments.find? (·.cid = k))
    (mem_whereIn_of_nodup hvalid.commentCids) h
  rw [commentsByCids]
  refine hread.trans ?_
  cases hfind : t.comments.find? (·.cid = c.cid) with
  | none => simpa using List.find?_eq_none.1 hfind c hc
  | some found =>
    have hkey : found.cid = c.cid := by simpa using List.find?_some hfind
    rw [hvalid.eq_of_cid (List.mem_of_find?_eq_some hfind) hc hkey]

theorem commentUpdatesByCids_eq (hvalid : t.Valid) {cid : Cid} (h : cid ∈ cids) :
    t.commentUpdatesByCids cids cid = t.updateOf cid :=
  readAll_eq maxVariables_pos t.updateOf (mem_whereIn_of_nodup hvalid.updateCids) h

theorem queryCommentNumbersByCids_eq (hvalid : t.Valid) (hc : c ∈ t.comments)
    (h : c.cid ∈ cids) :
    t.queryCommentNumbersByCids cids c.cid = some (t.commentNumbers c) := by
  have hmeta := commentsByCids_eq hvalid hc h
  simp only [queryCommentNumbersByCids, hmeta, Option.map_some, commentNumbers]
  congr 2
  split
  · rename_i hneeds
    refine commentUpdatesByCids_eq hvalid (List.mem_filter.2 ⟨h, ?_⟩)
    rw [hmeta]
    exact hneeds
  · rename_i hneeds
    refine readAll_eq_none maxVariables_pos (fun chunk k row hrow =>
      ((mem_whereIn_of_nodup hvalid.updateCids chunk k row).1 hrow).1) fun hmem => hneeds ?_
    have hany := (List.mem_filter.1 hmem).2
    rwa [hmeta] at hany

end DbTables

end UpdateReads
end Pkc

import Mathlib.Data.List.Nodup
import Pkc.Library.Results
import Pkc.Library.Transactions
import Pkc.Library.UniqueBy
import Pkc.Publish.Tables

/-!
# Purging a comment

`purgeComment` deletes a comment, all its descendants and what the other tables say about them.  It
runs in a transaction of its own, or inside that of its caller: the handler counts how many are
open, and only the first `BEGIN`, the last `COMMIT` and the last `ROLLBACK` reach the database.
Any statement may fail on the way.

* `Descends` is the reply tree, and `Purged` says what a purge has to have done.
* `purge_exact_and_atomic`: a purge that ends has done it, one that throws has left the database as
  it was; also together with the moderation that asked for it.

A row has the columns that are read here.  `rowid`s are numbers the database gives out.
-/

set_option autoImplicit false

namespace Pkc
namespace Database

open Transactions

/-! ## The tables -/

structure CommentsTableRow where
  rowid : Nat
  cid : Cid
  parentCid : Option Cid
  postCid : Cid
  authorSignerAddress : String
  /-- `signature.signature`, unless the column has no such JSON. -/
  signature : Option String
deriving DecidableEq, Repr

/-- What a purge reads of a CommentUpdate: where its files are. -/
structure StoredPlace where
  postUpdatesBucket : Option Nat
  replies : Option String
deriving DecidableEq, Repr

structure CommentUpdatesRow where
  rowid : Nat
  cid : Cid
  signature : Option String
  place : StoredPlace
  publishedToPostUpdatesMFS : Bool
deriving DecidableEq, Repr

structure VotesTableRow where
  commentCid : Cid
  authorSignerAddress : String
deriving DecidableEq, Repr

structure CommentEditsTableRow where
  rowid : Nat
  commentCid : Cid
  authorSignerAddress : String
  signature : Option String
deriving DecidableEq, Repr

structure CommentModerationTableRow where
  rowid : Nat
  commentCid : Cid
  signature : Option String
deriving DecidableEq, Repr

structure PseudonymityAliasRow where
  commentCid : Cid
deriving DecidableEq, Repr

/-- The six tables, with the keys that the schema makes unique. -/
@[ext] structure DbTables where
  comments : List CommentsTableRow
  commentUpdates : List CommentUpdatesRow
  votes : List VotesTableRow
  commentEdits : List CommentEditsTableRow
  commentModerations : List CommentModerationTableRow
  pseudonymityAliases : List PseudonymityAliasRow
  nodup_comments : (comments.map CommentsTableRow.cid).Nodup
  nodup_rowids : (comments.map CommentsTableRow.rowid).Nodup

/-- What is thrown. -/
inductive DbError
  /-- SQLite does not carry a statement out. -/
  | sqliteError
  | foreignKeyConstraintFailed
  | maximumCallStackSizeExceeded
  | commentNotFound (cid : Cid)
  | noAuthorSignerAddress (cid : Cid)
  | commentToPurgeNotFound
deriving DecidableEq, Repr

abbrev DbOp (α : Type) := Op DbTables DbError α

/-! ## Transactions -/

/-- Only the first transaction begins one of the database. -/
def createTransaction : DbOp Unit := fun s =>
  if s.depth = 0 then
    (execBegin .sqliteError).bind (fun _ s' => (.ok (), { s' with depth := s'.depth + 1 })) s
  else (.ok (), { s with depth := s.depth + 1 })

def commitTransaction : DbOp Unit := fun s =>
  if 0 < s.depth then
    let s' := { s with depth := s.depth - 1 }
    if s'.depth = 0 then execCommit .sqliteError s' else (.ok (), s')
  else (.ok (), s)

/-- The failure of `ROLLBACK` is only logged. -/
def rollbackTransaction : DbOp Unit := fun s =>
  if 0 < s.depth then
    let s' := if s.depth = 1 then (execRollback (T := DbTables) DbError.sqliteError s).2 else s
    (.ok (), { s' with depth := s.depth - 1 })
  else if s.snapshot.isSome then (.ok (), (execRollback (T := DbTables) DbError.sqliteError s).2)
  else (.ok (), s)

/-- The pattern in which the three are used. -/
def transaction {α : Type} (op : DbOp α) : DbOp α :=
  createTransaction.bind fun _ =>
    onError (op.bind fun a => commitTransaction.bind fun _ => Op.pure a) rollbackTransaction

/-! ## The rows of a comment -/

/-- The tables without some comments and what refers to them. -/
def DbTables.remove (t : DbTables) (cids : List Cid) : DbTables where
  comments := t.comments.filter fun row => row.cid ∉ cids
  commentUpdates := t.commentUpdates.filter fun row => row.cid ∉ cids
  votes := t.votes.filter fun row => row.commentCid ∉ cids
  commentEdits := t.commentEdits.filter fun row => row.commentCid ∉ cids
  commentModerations := t.commentModerations
  pseudonymityAliases := t.pseudonymityAliases.filter fun row => row.commentCid ∉ cids
  nodup_comments := t.nodup_comments.sublist (List.filter_sublist.map _)
  nodup_rowids := t.nodup_rowids.sublist (List.filter_sublist.map _)

def DbTables.deleteVotes (t : DbTables) (cid : Cid) : DbTables :=
  { t with votes := t.votes.filter fun row => row.commentCid ≠ cid }

def DbTables.deleteCommentEdits (t : DbTables) (cid : Cid) : DbTables :=
  { t with commentEdits := t.commentEdits.filter fun row => row.commentCid ≠ cid }

def DbTables.deletePseudonymityAliases (t : DbTables) (cid : Cid) : DbTables :=
  { t with pseudonymityAliases := t.pseudonymityAliases.filter fun row => row.commentCid ≠ cid }

def DbTables.deleteCommentUpdate (t : DbTables) (cid : Cid) : DbTables :=
  { t with commentUpdates := t.commentUpdates.filter fun row => row.cid ≠ cid }

def DbTables.deleteCommentRow (t : DbTables) (cid : Cid) : DbTables :=
  { t with
    comments := t.comments.filter fun row => row.cid ≠ cid
    nodup_comments := t.nodup_comments.sublist (List.filter_sublist.map _)
    nodup_rowids := t.nodup_rowids.sublist (List.filter_sublist.map _) }

/-- A row that the schema does not let refer to a comment that is gone. -/
def DbTables.refersTo (t : DbTables) (cid : Cid) : Bool :=
  t.comments.any (fun row => row.parentCid = some cid || row.postCid = cid) ||
    t.commentUpdates.any (fun row => row.cid = cid) ||
    t.votes.any (fun row => row.commentCid = cid) ||
    t.commentEdits.any (fun row => row.commentCid = cid)

def DbTables.comment (t : DbTables) (cid : Cid) : Option CommentsTableRow :=
  t.comments.find? fun row => row.cid = cid

def DbTables.commentUpdate (t : DbTables) (cid : Cid) : Option CommentUpdatesRow :=
  t.commentUpdates.find? fun row => row.cid = cid

/-- What a purge returns of a comment. -/
structure PurgedCommentTableRows where
  commentTableRow : CommentsTableRow
  commentUpdateTableRow : Option StoredPlace
deriving DecidableEq, Repr

def queryComment (cid : Cid) : DbOp (Option CommentsTableRow) :=
  query .sqliteError fun t => .ok (t.comment cid)

def queryCommentUpdateBucketAndReplies (cid : Cid) : DbOp (Option StoredPlace) :=
  query .sqliteError fun t => .ok ((t.commentUpdate cid).map CommentUpdatesRow.place)

def queryDirectChildren (cid : Cid) : DbOp (List Cid) :=
  query .sqliteError fun t =>
    .ok ((t.comments.filter fun row => row.parentCid = some cid).map CommentsTableRow.cid)

/-- A `DELETE` that the foreign keys say nothing about. -/
def delete (f : DbTables → DbTables) : DbOp Unit :=
  update .sqliteError fun t => .ok ((), f t)

/-- `DELETE FROM comments`, and how many rows it deleted.  The aliases that go with the comment are
gone already. -/
def deleteCommentRow (foreignKeys : Bool) (cid : Cid) : DbOp Nat :=
  update .sqliteError fun t =>
    if foreignKeys && (t.comment cid).isSome && (t.deleteCommentRow cid).refersTo cid then
      .error .foreignKeyConstraintFailed
    else .ok (t.comments.countP fun row => row.cid = cid, t.deleteCommentRow cid)

/-- The part of a purge that is about the comment itself. -/
def deleteComment (foreignKeys : Bool) (cid : Cid) : DbOp (List PurgedCommentTableRows) :=
  (queryComment cid).bind fun commentTableRow =>
  (delete (DbTables.deleteVotes · cid)).bind fun _ =>
  (delete (DbTables.deleteCommentEdits · cid)).bind fun _ =>
  (delete (DbTables.deletePseudonymityAliases · cid)).bind fun _ =>
  (queryCommentUpdateBucketAndReplies cid).bind fun commentUpdate =>
  (if commentUpdate.isSome then delete (DbTables.deleteCommentUpdate · cid)
    else Op.pure ()).bind fun _ =>
  (deleteCommentRow foreignKeys cid).bind fun changes =>
    if 0 < changes then
      match commentTableRow with
      | none => fail (.commentNotFound cid)
      | some row => Op.pure [⟨row, commentUpdate⟩]
    else Op.pure []

/-! ## The tree -/

/-- `_getAllDescendantCids`.  `stack` is what is left of the call stack. -/
def getAllDescendantCids : Nat → Cid → DbOp (List Cid)
  | 0, _ => fail .maximumCallStackSizeExceeded
  | stack + 1, cid =>
    (queryDirectChildren cid).bind fun directChildren =>
    (forEach (getAllDescendantCids stack) directChildren).bind fun descendants =>
      Op.pure (cid :: descendants.flatten)

/-- The rows from a comment up to its post.  On a cycle the recursive query does not end, which is
what `none` stands for. -/
def DbTables.parentChain (t : DbTables) : Nat → Cid → Option (List Cid)
  | 0, _ => none
  | fuel + 1, cid =>
    match t.comment cid with
    | none => some []
    | some row =>
      match row.parentCid with
      | none => some [cid]
      | some parentCid => (t.parentChain fuel parentCid).map (cid :: ·)

def queryParentsCids (fuel : Nat) (parentCid : Cid) : DbOp (List Cid) :=
  query .sqliteError fun t =>
    match t.parentChain fuel parentCid with
    | none => .error .sqliteError
    | some cids => .ok cids

/-- What a purge has to look at again because of one of the comments it deletes: the comments of its
author, what the author voted on and edited, and the comments above. -/
structure Affected where
  authorSignerAddress : String
  commentsToForceUpdate : List Cid
deriving DecidableEq, Repr

def queryAffected (stack : Nat) (cidToDelete : Cid) : DbOp Affected :=
  (queryComment cidToDelete).bind fun commentToDelete =>
    match commentToDelete with
    | none => fail (.commentNotFound cidToDelete)
    | some comment =>
      if comment.authorSignerAddress = "" then fail (.noAuthorSignerAddress cidToDelete)
      else
        (query .sqliteError fun t => .ok ((t.votes.filter fun vote =>
          vote.authorSignerAddress = comment.authorSignerAddress).map
            VotesTableRow.commentCid)).bind fun votes =>
        (query .sqliteError fun t => .ok ((t.commentEdits.filter fun edit =>
          edit.authorSignerAddress = comment.authorSignerAddress).map
            CommentEditsTableRow.commentCid)).bind fun edits =>
        (match comment.parentCid with
          | none => Op.pure []
          | some parentCid => queryParentsCids stack parentCid).bind fun ancestors =>
        Op.pure ⟨comment.authorSignerAddress, votes ++ edits ++ ancestors⟩

/-! ## The forced updates -/

def DbTables.forceUpdate (t : DbTables) (cids : List Cid) : DbTables :=
  { t with
    commentUpdates := t.commentUpdates.map fun row =>
      if row.cid ∈ cids then { row with publishedToPostUpdatesMFS := false } else row }

/-- One statement for each batch of cids.  `batches` are the batches that are left at most. -/
def runForEachCidBatch : Nat → List Cid → DbOp Unit
  | 0, _ => Op.pure ()
  | _ + 1, [] => Op.pure ()
  | batches + 1, cid :: cids =>
    (delete (DbTables.forceUpdate · ((cid :: cids).take 4096))).bind fun _ =>
      runForEachCidBatch batches ((cid :: cids).drop 4096)

def forceUpdateOnAllCommentsWithCid (commentCids : List Cid) : DbOp Unit :=
  savepoint .sqliteError (runForEachCidBatch commentCids.length commentCids)

/-- The comments of the authors, the comments that were collected, and one more comment, which
`random` draws. -/
def forceUpdates (random : Nat) (allCidsToBeDeleted : List Cid) (affected : List Affected) :
    DbOp Unit :=
  (forEach (fun author => query .sqliteError fun t =>
      .ok ((t.comments.filter fun row => row.authorSignerAddress = author).map
        CommentsTableRow.cid))
    (affected.map Affected.authorSignerAddress).dedup).bind fun allAffectedAuthorCids =>
  (query .sqliteError fun t =>
    let rest := t.comments.filter fun row => row.cid ∉ allCidsToBeDeleted
    .ok (rest[random % rest.length]?.map CommentsTableRow.cid)).bind fun randomComment =>
  forceUpdateOnAllCommentsWithCid (allAffectedAuthorCids.flatten ++
    affected.flatMap Affected.commentsToForceUpdate ++ randomComment.toList)

/-! ## The purge -/

/-- The part of a purge that is inside its transaction. -/
def purgeBody (foreignKeys : Bool) (random stack : Nat)
    (purgeChild : Cid → DbOp (List PurgedCommentTableRows)) (cid : Cid) (isNestedCall : Bool) :
    DbOp (List PurgedCommentTableRows) :=
  (getAllDescendantCids stack cid).bind fun allCidsToBeDeleted =>
  (if isNestedCall then Op.pure []
    else forEach (queryAffected stack) allCidsToBeDeleted).bind fun affected =>
  (queryDirectChildren cid).bind fun directChildren =>
  (forEach purgeChild directChildren).bind fun purgedBelow =>
  (deleteComment foreignKeys cid).bind fun purged =>
  (if isNestedCall then Op.pure ()
    else forceUpdates random allCidsToBeDeleted affected).bind fun _ =>
  Op.pure (uniqueBy (fun record => record.commentTableRow.cid) (purgedBelow.flatten ++ purged))

/-- The children are purged by nested calls, which leave the transaction and the forced updates to
the outermost one. -/
def purgeComment (foreignKeys : Bool) (random : Nat) :
    Nat → Cid → Bool → DbOp (List PurgedCommentTableRows)
  | 0, _, _ => fail .maximumCallStackSizeExceeded
  | stack + 1, cid, isNestedCall =>
    let body := purgeBody foreignKeys random stack
      (fun child => purgeComment foreignKeys random stack child true) cid isNestedCall
    if isNestedCall then body else transaction body

def insertCommentModerations (rows : List CommentModerationTableRow) : DbOp Unit :=
  update .sqliteError fun t =>
    .ok ((), { t with commentModerations := t.commentModerations ++ rows })

/-- The database side of `storeCommentModeration` for a moderation that purges. -/
def storePurge (foreignKeys : Bool) (random stack : Nat) (modTableRow : CommentModerationTableRow) :
    DbOp (List PurgedCommentTableRows) :=
  (queryComment modTableRow.commentCid).bind fun commentToPurge =>
    if commentToPurge.isNone then fail .commentToPurgeNotFound
    else
      transaction
        ((purgeComment foreignKeys random stack modTableRow.commentCid false).bind fun purged =>
        (insertCommentModerations [modTableRow]).bind fun _ => Op.pure purged)

/-! ## A transaction as a whole -/

section Transactions

variable {α : Type} {op : DbOp α} {s s' : Session DbTables} {a : α} {e : DbError}

/-- No transaction is open. -/
def Closed (s : Session DbTables) : Prop := s.depth = 0 ∧ s.snapshot = none

theorem createTransaction_eq_ok {u : Unit} (h : createTransaction s = (.ok u, s')) :
    s'.tables = s.tables ∧ s'.depth = s.depth + 1 ∧
      (s.depth = 0 → s.snapshot = none ∧ s'.snapshot = some s.tables) ∧
      (s.depth ≠ 0 → s'.snapshot = s.snapshot) := by
  rw [createTransaction] at h
  split at h
  · rename_i hdepth
    obtain ⟨_, s₁, hbegin, h⟩ := bind_eq_ok.1 h
    obtain ⟨hnone, htables, hsnapshot, hkept⟩ := execBegin_eq_ok hbegin
    cases h
    exact ⟨htables, by simp only [hkept], fun _ => ⟨hnone, hsnapshot⟩, fun hne => absurd hdepth hne⟩
  · rename_i hdepth
    cases h
    exact ⟨rfl, rfl, fun hzero => absurd hzero hdepth, fun _ => rfl⟩

theorem commitTransaction_eq_ok {u : Unit} (hpos : 0 < s.depth)
    (h : commitTransaction s = (.ok u, s')) :
    s'.tables = s.tables ∧ s'.depth = s.depth - 1 ∧
      s'.snapshot = if s.depth = 1 then none else s.snapshot := by
  rw [commitTransaction, if_pos hpos] at h
  simp only at h
  split at h
  · rename_i hdepth
    have hone : s.depth = 1 := by omega
    obtain ⟨htables, hsnapshot, hkept⟩ := execCommit_eq_ok h
    rw [if_pos hone]
    exact ⟨htables, hkept, hsnapshot⟩
  · rename_i hdepth
    cases h
    have hone : s.depth ≠ 1 := by omega
    rw [if_neg hone]
    exact ⟨rfl, rfl, rfl⟩

theorem commitTransaction_eq_error {t : DbTables} (hdepth : s.depth = 1)
    (hs : s.snapshot = some t) (h : commitTransaction s = (.error e, s')) :
    s'.depth = 0 ∧ s'.RestorableTo t := by
  have hpos : 0 < s.depth := by omega
  rw [commitTransaction, if_pos hpos] at h
  simp only [hdepth, Nat.sub_self, if_true] at h
  have hopen : { s with depth := 0 }.snapshot = some t := hs
  obtain ⟨hrestorable, hkept⟩ := restorable_of_statement_eq_error hopen h
  exact ⟨hkept, hrestorable⟩

/-- What a transaction has done is what its body has done. -/
theorem transaction_eq_ok (h : transaction op s = (.ok a, s')) :
    ∃ s₁ s₂, op s₁ = (.ok a, s₂) ∧ s₁.tables = s.tables ∧ s'.tables = s₂.tables := by
  obtain ⟨_, s₁, hcreate, h⟩ := bind_eq_ok.1 h
  obtain ⟨b, s₂, hop, h⟩ := bind_eq_ok.1 (onError_eq_ok.1 h)
  obtain ⟨_, s₃, hcommit, h⟩ := bind_eq_ok.1 h
  obtain ⟨rfl, rfl⟩ := pure_eq_ok.1 h
  refine ⟨s₁, s₂, hop, (createTransaction_eq_ok hcreate).1, ?_⟩
  by_cases hpos : 0 < s₂.depth
  · exact (commitTransaction_eq_ok hpos hcommit).1
  · rw [commitTransaction, if_neg hpos] at hcommit
    cases hcommit
    rfl

theorem createTransaction_eq_error (hs : Closed s) (h : createTransaction s = (.error e, s')) :
    s'.tables = s.tables ∧ Closed s' := by
  obtain ⟨hdepth, hsnapshot⟩ := hs
  rw [createTransaction, if_pos hdepth] at h
  simp only [Op.bind] at h
  cases hbegin : (execBegin .sqliteError : DbOp Unit) s with
  | mk r s₁ =>
    rw [hbegin] at h
    cases r with
    | ok u => cases h
    | error e =>
      cases h
      obtain ⟨htables, hnone, hkept⟩ := execBegin_eq_error hsnapshot hbegin
      exact ⟨htables, hkept.trans hdepth, hnone⟩

theorem rollbackTransaction_of_outermost {t : DbTables} (hdepth : s.depth ≤ 1)
    (h : s.RestorableTo t) :
    (rollbackTransaction s).2.tables = t ∧ Closed (rollbackTransaction s).2 := by
  obtain ⟨htables, hsnapshot, hkept⟩ := execRollback_of_restorable DbError.sqliteError h
  rw [rollbackTransaction]
  split
  · have hone : s.depth = 1 := by omega
    simp only [hone, if_true]
    exact ⟨htables, rfl, hsnapshot⟩
  · have hzero : s.depth = 0 := by omega
    split
    · exact ⟨htables, hkept.trans hzero, hsnapshot⟩
    · rename_i hnone
      rcases h with hsome | ⟨hnone, htables⟩
      · simp [hsome] at hnone
      · exact ⟨htables, hzero, hnone⟩

theorem rollbackTransaction_of_nested {t : DbTables} (hdepth : 1 < s.depth)
    (h : s.RestorableTo t) :
    (rollbackTransaction s).2.depth = s.depth - 1 ∧ (rollbackTransaction s).2.RestorableTo t := by
  have hpos : 0 < s.depth := by omega
  have hone : s.depth ≠ 1 := by omega
  simp only [rollbackTransaction, if_pos hpos, if_neg hone]
  exact ⟨trivial, h⟩

/-- **Atomicity.**  A transaction that is not in another one is closed at its end, and has changed
nothing when it throws. -/
theorem transaction_closed (hin : Inside op) (hs : Closed s) :
    Closed (transaction op s).2 ∧
      ∀ e, (transaction op s).1 = .error e → (transaction op s).2.tables = s.tables := by
  rw [transaction, Op.bind]
  cases hcreate : createTransaction s with
  | mk r s₁ =>
    cases r with
    | error e =>
      obtain ⟨htables, hclosed⟩ := createTransaction_eq_error hs hcreate
      exact ⟨hclosed, fun _ _ => htables⟩
    | ok u =>
      obtain ⟨htables, hdepth₁, hsnapshot₁, -⟩ := createTransaction_eq_ok hcreate
      obtain ⟨-, hsnapshot₁⟩ := hsnapshot₁ hs.1
      rw [hs.1] at hdepth₁
      simp only [onError, Op.bind]
      cases hop : op s₁ with
      | mk r s₂ =>
        cases r with
        | error e =>
          obtain ⟨hdepth₂, hrestorable⟩ := hin.error hsnapshot₁ hop
          obtain ⟨hrolled, hclosed⟩ :=
            rollbackTransaction_of_outermost (hdepth₂.trans hdepth₁).le hrestorable
          exact ⟨hclosed, fun _ _ => hrolled⟩
        | ok a =>
          obtain ⟨hdepth₂, hsnapshot₂⟩ := hin.ok hsnapshot₁ hop
          have hone : s₂.depth = 1 := hdepth₂.trans hdepth₁
          simp only
          cases hcommit : commitTransaction s₂ with
          | mk r s₃ =>
            cases r with
            | ok u =>
              obtain ⟨-, hdepth₃, hsnapshot₃⟩ := commitTransaction_eq_ok (by omega) hcommit
              rw [if_pos hone] at hsnapshot₃
              exact ⟨⟨by simp only [Op.pure]; omega, hsnapshot₃⟩, (by rintro _ ⟨⟩)⟩
            | error e =>
              obtain ⟨hdepth₃, hrestorable⟩ := commitTransaction_eq_error hone hsnapshot₂ hcommit
              obtain ⟨hrolled, hclosed⟩ :=
                rollbackTransaction_of_outermost (by omega) hrestorable
              exact ⟨hclosed, fun _ _ => hrolled⟩

/-- A statement that reads leaves no transaction open. -/
theorem query_closed {f : DbTables → Except DbError α} {r : Except DbError α} (hs : Closed s)
    (h : query .sqliteError f s = (r, s')) : s'.tables = s.tables ∧ Closed s' := by
  cases r with
  | ok a =>
    obtain ⟨-, rfl⟩ := query_eq_ok h
    exact ⟨rfl, hs⟩
  | error e =>
    rcases statement_eq_error h with rfl | rfl
    · exact ⟨rfl, hs⟩
    · exact ⟨by simp [Session.undone, hs.2], hs.1, rfl⟩

/-- A transaction in another one stays in that one. -/
theorem inside_transaction (hin : Inside op) : Inside (transaction op) := by
  intro s t hs
  rw [transaction, Op.bind]
  cases hcreate : createTransaction s with
  | mk r s₁ =>
    cases r with
    | error e =>
      rw [createTransaction] at hcreate
      split at hcreate
      · simp only [Op.bind] at hcreate
        cases hbegin : (execBegin .sqliteError : DbOp Unit) s with
        | mk r s₂ =>
          rw [hbegin] at hcreate
          cases r with
          | ok u => cases hcreate
          | error e =>
            cases hcreate
            exact (restorable_of_statement_eq_error hs hbegin).symm
      · cases hcreate
    | ok u =>
      obtain ⟨-, hdepth₁, hclosed, hsnapshot₁⟩ := createTransaction_eq_ok hcreate
      have hpos : s.depth ≠ 0 := by
        intro hzero
        rw [(hclosed hzero).1] at hs
        cases hs
      replace hsnapshot₁ := hsnapshot₁ hpos
      simp only [onError, Op.bind]
      cases hop : op s₁ with
      | mk r s₂ =>
        cases r with
        | error e =>
          obtain ⟨hdepth₂, hrestorable⟩ := hin.error (hsnapshot₁.trans hs) hop
          obtain ⟨hdepth₃, hrestorable⟩ :=
            rollbackTransaction_of_nested (by omega) hrestorable
          exact ⟨by simp only; omega, hrestorable⟩
        | ok a =>
          obtain ⟨hdepth₂, hsnapshot₂⟩ := hin.ok (hsnapshot₁.trans hs) hop
          have hnested : s₂.depth ≠ 1 := by omega
          have hleft : s₂.depth - 1 ≠ 0 := by omega
          have hpos₂ : 0 < s₂.depth := by omega
          simp only [commitTransaction, if_pos hpos₂, if_neg hleft, Op.pure]
          exact ⟨by omega, hsnapshot₂⟩

end Transactions

section Inside

variable {foreignKeys : Bool} {random stack : Nat} {cid : Cid}

theorem inside_delete (f : DbTables → DbTables) : Inside (delete f) := inside_update _ _

theorem inside_ite {α : Type} {p : Prop} [Decidable p] {op op' : DbOp α} (h : Inside op)
    (h' : Inside op') : Inside (if p then op else op') := by
  split <;> assumption

theorem inside_deleteComment : Inside (deleteComment foreignKeys cid) := by
  refine (inside_query _ _).bind fun row => (inside_delete _).bind fun _ =>
    (inside_delete _).bind fun _ => (inside_delete _).bind fun _ =>
    (inside_query _ _).bind fun place =>
    (inside_ite (inside_delete _) (inside_pure _)).bind fun _ =>
    (inside_update _ _).bind fun changes => inside_ite ?_ (inside_pure _)
  cases row with
  | none => exact inside_fail _
  | some row => exact inside_pure _

theorem inside_getAllDescendantCids : Inside (getAllDescendantCids stack cid) := by
  induction stack generalizing cid with
  | zero => exact inside_fail _
  | succ stack ih =>
    exact (inside_query _ _).bind fun directChildren =>
      (inside_forEach (fun _ => ih) directChildren).bind fun _ => inside_pure _

theorem inside_queryAffected : Inside (queryAffected stack cid) := by
  refine (inside_query _ _).bind fun comment => ?_
  cases comment with
  | none => exact inside_fail _
  | some comment =>
    refine inside_ite (inside_fail _) ((inside_query _ _).bind fun _ =>
      (inside_query _ _).bind fun _ => Inside.bind ?_ fun _ => inside_pure _)
    cases comment.parentCid with
    | none => exact inside_pure _
    | some parentCid => exact inside_query _ _

theorem inside_runForEachCidBatch (batches : Nat) (cids : List Cid) :
    Inside (runForEachCidBatch batches cids) := by
  induction batches generalizing cids with
  | zero => exact inside_pure _
  | succ batches ih =>
    cases cids with
    | nil => exact inside_pure _
    | cons cid cids => exact (inside_delete _).bind fun _ => ih _

theorem inside_forceUpdates (cids : List Cid) (affected : List Affected) :
    Inside (forceUpdates random cids affected) :=
  (inside_forEach (fun _ => inside_query _ _) _).bind fun _ =>
    (inside_query _ _).bind fun _ => (inside_runForEachCidBatch _ _).savepoint

theorem inside_purgeBody {purgeChild : Cid → DbOp (List PurgedCommentTableRows)}
    (hchild : ∀ child, Inside (purgeChild child)) {isNestedCall : Bool} :
    Inside (purgeBody foreignKeys random stack purgeChild cid isNestedCall) :=
  inside_getAllDescendantCids.bind fun cids =>
    (inside_ite (inside_pure _) (inside_forEach (fun _ => inside_queryAffected) cids)).bind
      fun affected =>
    (inside_query _ _).bind fun directChildren =>
    (inside_forEach hchild directChildren).bind fun _ =>
    inside_deleteComment.bind fun _ =>
    (inside_ite (inside_pure _) (inside_forceUpdates cids affected)).bind fun _ =>
    inside_pure _

theorem inside_purgeComment {isNestedCall : Bool} :
    Inside (purgeComment foreignKeys random stack cid isNestedCall) := by
  induction stack generalizing cid isNestedCall with
  | zero => exact inside_fail _
  | succ stack ih =>
    rw [purgeComment]
    exact inside_ite (inside_purgeBody fun _ => ih)
      (inside_transaction (inside_purgeBody fun _ => ih))

end Inside

/-! ## What is removed -/

/-- A comment, and everything that replies to it. -/
inductive Descends (t : DbTables) (root : Cid) : Cid → Prop
  | self : Descends t root root
  | reply {row : CommentsTableRow} {parentCid : Cid} (hrow : row ∈ t.comments)
      (hparent : row.parentCid = some parentCid) (h : Descends t root parentCid) :
      Descends t root row.cid

section Tree

variable {t t' t'' : DbTables} {root cid : Cid} {cids roots roots' : List Cid}
  {records records' : List PurgedCommentTableRows}

theorem Descends.trans {cid' : Cid} (h : Descends t root cid) (h' : Descends t cid cid') :
    Descends t root cid' := by
  induction h' with
  | self => exact h
  | reply hrow hparent _ ih => exact .reply hrow hparent ih

theorem Descends.eq_or_below_child (h : Descends t root cid) :
    cid = root ∨ ∃ child ∈ t.comments, child.parentCid = some root ∧ Descends t child.cid cid := by
  induction h with
  | self => exact Or.inl rfl
  | @reply row parentCid hrow hparent h ih =>
    right
    rcases ih with rfl | ⟨child, hchild, hroot, hbelow⟩
    · exact ⟨row, hrow, hparent, .self⟩
    · exact ⟨child, hchild, hroot, .reply hrow hparent hbelow⟩

theorem Descends.eq_or_above {row : CommentsTableRow} (hrow : row ∈ t.comments)
    (h : Descends t root row.cid) :
    root = row.cid ∨ ∃ above, row.parentCid = some above ∧ Descends t root above := by
  generalize hcid : row.cid = x at h
  cases h with
  | self => exact Or.inl rfl
  | reply hrow' hparent h =>
    rw [List.inj_on_of_nodup_map t.nodup_comments hrow hrow' hcid]
    exact Or.inr ⟨_, hparent, h⟩

theorem Descends.of_remove (h : Descends (t.remove cids) root cid) : Descends t root cid := by
  induction h with
  | self => exact .self
  | reply hrow hparent _ ih => exact .reply (List.mem_filter.1 hrow).1 hparent ih

/-- What is below a root stays below it, unless it is removed. -/
theorem Descends.remove
    (hclosed : ∀ {parent cid}, parent ∈ cids → Descends t parent cid → cid ∈ cids)
    (h : Descends t root cid) : cid ∈ cids ∨ Descends (t.remove cids) root cid := by
  induction h with
  | self => exact Or.inr .self
  | @reply row parentCid hrow hparent _ ih =>
    by_cases hin : row.cid ∈ cids
    · exact Or.inl hin
    · right
      rcases ih with hparentIn | hbelow
      · exact absurd (hclosed hparentIn (.reply hrow hparent .self)) hin
      · exact .reply (List.mem_filter.2 ⟨hrow, by simpa using hin⟩) hparent hbelow

theorem DbTables.remove_nil (t : DbTables) : t.remove [] = t := by
  ext1 <;> simp [DbTables.remove]

theorem DbTables.remove_remove (t : DbTables) (cids cids' : List Cid) :
    (t.remove cids).remove cids' = t.remove (cids ++ cids') := by
  ext1 <;> simp [DbTables.remove, List.filter_filter, Bool.and_comm]

theorem DbTables.comment_eq_some {row : CommentsTableRow} :
    t.comment cid = some row ↔ row ∈ t.comments ∧ row.cid = cid := by
  rw [DbTables.comment]
  constructor
  · intro h
    exact ⟨List.mem_of_find?_eq_some h, by simpa using List.find?_some h⟩
  · rintro ⟨hrow, rfl⟩
    cases hfind : t.comments.find? fun other => other.cid = row.cid with
    | none => simpa using List.find?_eq_none.1 hfind row hrow
    | some other =>
      have hcid : other.cid = row.cid := by simpa using List.find?_some hfind
      exact congrArg some
        (List.inj_on_of_nodup_map t.nodup_comments (List.mem_of_find?_eq_some hfind) hrow hcid)

theorem DbTables.comment_eq_none : t.comment cid = none ↔ ∀ row ∈ t.comments, row.cid ≠ cid := by
  simp [DbTables.comment]

/-- What a purge returns of a row. -/
def DbTables.purged (t : DbTables) (row : CommentsTableRow) : PurgedCommentTableRows :=
  ⟨row, (t.commentUpdate row.cid).map CommentUpdatesRow.place⟩

theorem DbTables.purged_remove {row : CommentsTableRow} (h : row.cid ∉ cids) :
    (t.remove cids).purged row = t.purged row := by
  have hfind : (t.remove cids).commentUpdate row.cid = t.commentUpdate row.cid := by
    simp only [DbTables.commentUpdate, DbTables.remove, List.find?_filter]
    congr 1
    funext update
    by_cases hcid : update.cid = row.cid
    · simp [hcid, h]
    · simp [hcid]
  rw [DbTables.purged, hfind, DbTables.purged]

/-- The trees below the roots are gone with everything that refers to them, and the records are
their rows. -/
structure Removes (t t' : DbTables) (roots : List Cid) (records : List PurgedCommentTableRows) :
    Prop where
  tables : ∃ cids, (∀ cid, cid ∈ cids ↔ ∃ root ∈ roots, Descends t root cid) ∧ t' = t.remove cids
  records : ∀ record, record ∈ records ↔
    ∃ row ∈ t.comments, (∃ root ∈ roots, Descends t root row.cid) ∧ record = t.purged row

theorem Removes.nil (t : DbTables) : Removes t t [] [] :=
  ⟨⟨[], by simp, t.remove_nil.symm⟩, by simp⟩

/-- What is below the one or the other roots is removed with the first, or below the others in what
is left. -/
theorem exists_descends_append (hcids : ∀ cid, cid ∈ cids ↔ ∃ root ∈ roots, Descends t root cid) :
    (∃ root ∈ roots ++ roots', Descends t root cid) ↔
      cid ∈ cids ∨ ∃ root ∈ roots', Descends (t.remove cids) root cid := by
  have hclosed : ∀ {parent cid}, parent ∈ cids → Descends t parent cid → cid ∈ cids := by
    intro parent cid hparent hbelow
    obtain ⟨root, hroot, hdescends⟩ := (hcids parent).1 hparent
    exact (hcids cid).2 ⟨root, hroot, hdescends.trans hbelow⟩
  constructor
  · rintro ⟨root, hroot, hdescends⟩
    rcases List.mem_append.1 hroot with hroot | hroot
    · exact Or.inl ((hcids cid).2 ⟨root, hroot, hdescends⟩)
    · exact (hdescends.remove hclosed).imp id fun hbelow => ⟨root, hroot, hbelow⟩
  · rintro (hin | ⟨root, hroot, hdescends⟩)
    · obtain ⟨root, hroot, hdescends⟩ := (hcids cid).1 hin
      exact ⟨root, List.mem_append_left _ hroot, hdescends⟩
    · exact ⟨root, List.mem_append_right _ hroot, hdescends.of_remove⟩

theorem Removes.append (h : Removes t t' roots records) (h' : Removes t' t'' roots' records') :
    Removes t t'' (roots ++ roots') (records ++ records') := by
  obtain ⟨⟨cids, hcids, rfl⟩, hrecords⟩ := h
  obtain ⟨⟨cids', hcids', rfl⟩, hrecords'⟩ := h'
  refine ⟨⟨cids ++ cids', fun cid => ?_, t.remove_remove cids cids'⟩, fun record => ?_⟩
  · rw [List.mem_append, hcids', exists_descends_append hcids]
  · rw [List.mem_append, hrecords, hrecords']
    constructor
    · rintro (⟨row, hrow, hbelow, rfl⟩ | ⟨row, hrow, hbelow, rfl⟩)
      · exact ⟨row, hrow, (exists_descends_append hcids).2 (Or.inl ((hcids _).2 hbelow)), rfl⟩
      · obtain ⟨hold, hout⟩ := List.mem_filter.1 hrow
        exact ⟨row, hold, (exists_descends_append hcids).2 (Or.inr hbelow),
          DbTables.purged_remove (by simpa using hout)⟩
    · rintro ⟨row, hrow, hbelow, rfl⟩
      by_cases hin : row.cid ∈ cids
      · exact Or.inl ⟨row, hrow, (hcids _).1 hin, rfl⟩
      · exact Or.inr ⟨row, List.mem_filter.2 ⟨hrow, by simpa using hin⟩,
          ((exists_descends_append hcids).1 hbelow).resolve_left hin,
          (DbTables.purged_remove hin).symm⟩

/-- The comment after its children. -/
theorem Removes.of_children {children : List Cid}
    (hchildren : ∀ child, child ∈ children ↔
      ∃ row ∈ t.comments, row.parentCid = some cid ∧ row.cid = child)
    (h : Removes t t' children records) (hself : t'' = t'.remove [cid])
    (hrecords : ∀ record, record ∈ records' ↔
      ∃ row ∈ t'.comments, row.cid = cid ∧ record = t'.purged row) :
    Removes t t'' [cid] (records ++ records') := by
  obtain ⟨⟨cids, hcids, rfl⟩, hbelow⟩ := h
  have hsplit : ∀ x, Descends t cid x ↔ x ∈ cids ∨ x = cid := by
    intro x
    rw [hcids]
    constructor
    · intro hdescends
      rcases hdescends.eq_or_below_child with rfl | ⟨row, hrow, hparent, hdescends⟩
      · exact Or.inr rfl
      · exact Or.inl ⟨row.cid, (hchildren _).2 ⟨row, hrow, hparent, rfl⟩, hdescends⟩
    · rintro (⟨child, hchild, hdescends⟩ | rfl)
      · obtain ⟨row, hrow, hparent, rfl⟩ := (hchildren _).1 hchild
        exact (Descends.reply hrow hparent .self).trans hdescends
      · exact .self
  refine ⟨⟨cids ++ [cid], fun x => ?_, by rw [hself, t.remove_remove]⟩, fun record => ?_⟩
  · simp [hsplit]
  · simp only [List.mem_append, hbelow, hrecords, List.mem_singleton, exists_eq_left]
    constructor
    · rintro (⟨row, hrow, hdescends, rfl⟩ | ⟨row, hrow, hcid, rfl⟩)
      · exact ⟨row, hrow, (hsplit _).2 (Or.inl ((hcids _).2 hdescends)), rfl⟩
      · obtain ⟨hold, hout⟩ := List.mem_filter.1 hrow
        exact ⟨row, hold, (hsplit _).2 (Or.inr hcid), DbTables.purged_remove (by simpa using hout)⟩
    · rintro ⟨row, hrow, hdescends, rfl⟩
      by_cases hin : row.cid ∈ cids
      · exact Or.inl ⟨row, hrow, (hcids _).1 hin, rfl⟩
      · exact Or.inr ⟨row, List.mem_filter.2 ⟨hrow, by simpa using hin⟩,
          ((hsplit _).1 hdescends).resolve_left hin, (DbTables.purged_remove hin).symm⟩

end Tree

/-! ## What the statements do -/

section Statements

variable {foreignKeys : Bool} {random stack : Nat} {cid : Cid} {s s' : Session DbTables}

theorem delete_eq_ok {f : DbTables → DbTables} {u : Unit} (h : delete f s = (.ok u, s')) :
    s'.tables = f s.tables := by
  obtain ⟨t, ht, rfl⟩ := update_eq_ok h
  cases ht
  rfl

theorem queryComment_eq_ok {row : Option CommentsTableRow}
    (h : queryComment cid s = (.ok row, s')) :
    row = s.tables.comment cid ∧ s'.tables = s.tables := by
  obtain ⟨ht, rfl⟩ := query_eq_ok h
  cases ht
  exact ⟨rfl, rfl⟩

theorem queryDirectChildren_eq_ok {children : List Cid}
    (h : queryDirectChildren cid s = (.ok children, s')) :
    (∀ child, child ∈ children ↔
      ∃ row ∈ s.tables.comments, row.parentCid = some cid ∧ row.cid = child) ∧
    s'.tables = s.tables := by
  obtain ⟨ht, rfl⟩ := query_eq_ok h
  cases ht
  exact ⟨fun child => by simp [and_assoc], rfl⟩

theorem queryPlace_eq_ok {place : Option StoredPlace}
    (h : queryCommentUpdateBucketAndReplies cid s = (.ok place, s')) :
    place = (s.tables.commentUpdate cid).map CommentUpdatesRow.place ∧ s'.tables = s.tables := by
  obtain ⟨ht, rfl⟩ := query_eq_ok h
  cases ht
  exact ⟨rfl, rfl⟩

theorem DbTables.deleteCommentUpdate_of_none {t : DbTables} (h : t.commentUpdate cid = none) :
    t.deleteCommentUpdate cid = t := by
  ext1 <;> simp only [DbTables.deleteCommentUpdate]
  rw [List.filter_eq_self]
  simpa [DbTables.commentUpdate] using h

theorem DbTables.deleteAll (t : DbTables) (cid : Cid) :
    ((((t.deleteVotes cid).deleteCommentEdits cid).deletePseudonymityAliases
      cid).deleteCommentUpdate cid).deleteCommentRow cid = t.remove [cid] := by
  ext1 <;> simp [DbTables.deleteVotes, DbTables.deleteCommentEdits,
    DbTables.deletePseudonymityAliases, DbTables.deleteCommentUpdate, DbTables.deleteCommentRow,
    DbTables.remove]

/-- What refers to the comment is gone before its row is. -/
theorem deleteReferences_eq_ok {row : Option CommentsTableRow} {place : Option StoredPlace}
    {s₁ s₂ s₃ s₄ s₅ s₆ : Session DbTables} {u : Unit} (hquery : queryComment cid s = (.ok row, s₁))
    (hvotes : delete (DbTables.deleteVotes · cid) s₁ = (.ok u, s₂))
    (hedits : delete (DbTables.deleteCommentEdits · cid) s₂ = (.ok u, s₃))
    (haliases : delete (DbTables.deletePseudonymityAliases · cid) s₃ = (.ok u, s₄))
    (hplace : queryCommentUpdateBucketAndReplies cid s₄ = (.ok place, s₅))
    (hupdate : (if place.isSome then delete (DbTables.deleteCommentUpdate · cid)
      else Op.pure ()) s₅ = (.ok u, s₆)) :
    s₆.tables.comments = s.tables.comments ∧
      s₆.tables.deleteCommentRow cid = s.tables.remove [cid] := by
  obtain ⟨hplaceOf, h₅⟩ := queryPlace_eq_ok hplace
  have h₄ : s₄.tables =
      ((s.tables.deleteVotes cid).deleteCommentEdits cid).deletePseudonymityAliases cid := by
    rw [delete_eq_ok haliases, delete_eq_ok hedits, delete_eq_ok hvotes,
      (queryComment_eq_ok hquery).2]
  have h₆ : s₆.tables = s₄.tables.deleteCommentUpdate cid := by
    rw [← h₅]
    split at hupdate
    · exact delete_eq_ok hupdate
    · rename_i hnone
      obtain ⟨-, rfl⟩ := pure_eq_ok.1 hupdate
      rw [hplaceOf, ← h₅] at hnone
      exact (DbTables.deleteCommentUpdate_of_none (by simpa using hnone)).symm
  exact ⟨by rw [h₆, h₄]; rfl, by rw [h₆, h₄, DbTables.deleteAll]⟩

/-- The statements about one comment, together. -/
theorem deleteComment_eq_ok {records : List PurgedCommentTableRows}
    (h : deleteComment foreignKeys cid s = (.ok records, s')) :
    s'.tables = s.tables.remove [cid] ∧
      ∀ record, record ∈ records ↔
        ∃ row ∈ s.tables.comments, row.cid = cid ∧ record = s.tables.purged row := by
  obtain ⟨row, s₁, hquery, h⟩ := bind_eq_ok.1 h
  obtain ⟨_, s₂, hvotes, h⟩ := bind_eq_ok.1 h
  obtain ⟨_, s₃, hedits, h⟩ := bind_eq_ok.1 h
  obtain ⟨_, s₄, haliases, h⟩ := bind_eq_ok.1 h
  obtain ⟨place, s₅, hplace, h⟩ := bind_eq_ok.1 h
  obtain ⟨_, s₆, hupdate, h⟩ := bind_eq_ok.1 h
  obtain ⟨changes, s₇, hdelete, h⟩ := bind_eq_ok.1 h
  obtain ⟨hcomments, htables⟩ :=
    deleteReferences_eq_ok hquery hvotes hedits haliases hplace hupdate
  obtain ⟨rfl, h₁⟩ := queryComment_eq_ok hquery
  obtain ⟨hplaceOf, -⟩ := queryPlace_eq_ok hplace
  obtain ⟨t, hrun, rfl⟩ := update_eq_ok hdelete
  have hdone : (s₆.tables.comments.countP fun row => row.cid = cid,
      s₆.tables.deleteCommentRow cid) = (changes, t) := by
    split at hrun
    · cases hrun
    · exact Except.ok.inj hrun
  obtain ⟨rfl, rfl⟩ := Prod.mk.inj hdone
  have hupdates : s₄.tables.commentUpdate cid = s.tables.commentUpdate cid := by
    rw [delete_eq_ok haliases, delete_eq_ok hedits, delete_eq_ok hvotes, h₁]
    rfl
  rw [hcomments] at h
  split at h
  · rename_i hpos
    obtain ⟨row, hrow, hcid⟩ := List.countP_pos_iff.1 hpos
    have hfound : s.tables.comment cid = some row :=
      DbTables.comment_eq_some.2 ⟨hrow, by simpa using hcid⟩
    rw [hfound] at h
    obtain ⟨rfl, rfl⟩ := pure_eq_ok.1 h
    refine ⟨htables, fun record => ?_⟩
    have hcid : row.cid = cid := by simpa using hcid
    subst hcid
    simp only [List.mem_singleton]
    rw [hplaceOf, hupdates]
    constructor
    · rintro rfl
      exact ⟨row, hrow, rfl, rfl⟩
    · rintro ⟨other, hother, hsame, rfl⟩
      rw [List.inj_on_of_nodup_map s.tables.nodup_comments hother hrow hsame]
      rfl
  · rename_i hzero
    obtain ⟨rfl, rfl⟩ := pure_eq_ok.1 h
    refine ⟨htables, fun record => ?_⟩
    have hnone : ∀ row ∈ s.tables.comments, row.cid ≠ cid := by
      simpa [List.countP_pos_iff] using hzero
    simp only [List.not_mem_nil, false_iff]
    rintro ⟨row, hrow, hcid, -⟩
    exact hnone row hrow hcid

theorem getAllDescendantCids_eq_ok {cids : List Cid}
    (h : getAllDescendantCids stack cid s = (.ok cids, s')) :
    s'.tables = s.tables ∧ ∀ x, x ∈ cids ↔ Descends s.tables cid x := by
  induction stack generalizing cid cids s s' with
  | zero => exact absurd h not_fail_eq_ok
  | succ stack ih =>
    obtain ⟨children, s₁, hchildren, h⟩ := bind_eq_ok.1 h
    obtain ⟨descendants, s₂, hdescendants, h⟩ := bind_eq_ok.1 h
    obtain ⟨rfl, rfl⟩ := pure_eq_ok.1 h
    obtain ⟨hmem, h₁⟩ := queryDirectChildren_eq_ok hchildren
    obtain ⟨h₂, hbelow⟩ := forEach_query_eq_ok
      (Q := fun t child below => ∀ x, x ∈ below ↔ Descends t child x) ih hdescendants
    rw [h₁] at hbelow h₂
    refine ⟨h₂, fun x => ?_⟩
    simp only [List.mem_cons, List.mem_flatten]
    constructor
    · rintro (rfl | ⟨below, hin, hx⟩)
      · exact .self
      · obtain ⟨child, hchild, hspec⟩ := Results.exists_left_of_forall₂ hbelow hin
        obtain ⟨row, hrow, hparent, rfl⟩ := (hmem child).1 hchild
        exact (Descends.reply hrow hparent .self).trans ((hspec x).1 hx)
    · intro hdescends
      rcases hdescends.eq_or_below_child with rfl | ⟨row, hrow, hparent, hdescends⟩
      · exact Or.inl rfl
      · obtain ⟨below, hin, hspec⟩ :=
          Results.exists_right_of_forall₂ hbelow ((hmem _).2 ⟨row, hrow, hparent, rfl⟩)
        exact Or.inr ⟨below, hin, (hspec x).2 hdescends⟩

theorem Removes.unique {t t' : DbTables} {roots : List Cid}
    {records : List PurgedCommentTableRows} (h : Removes t t' roots records) :
    Removes t t' roots (uniqueBy (fun record => record.commentTableRow.cid) records) := by
  refine ⟨h.tables, fun record => ?_⟩
  rw [mem_uniqueBy, h.records]
  intro record hrecord other hother hcid
  obtain ⟨row, hrow, -, rfl⟩ := (h.records record).1 hrecord
  obtain ⟨row', hrow', -, rfl⟩ := (h.records other).1 hother
  rw [List.inj_on_of_nodup_map t.nodup_comments hrow hrow' hcid]

/-- A comment and its children, each purged by a nested call. -/
theorem purgeBelow_eq_ok {purge : Cid → DbOp (List PurgedCommentTableRows)} {children : List Cid}
    {purgedBelow : List (List PurgedCommentTableRows)}
    (hpurge : ∀ {child records} {t t' : Session DbTables}, purge child t = (.ok records, t') →
      Removes t.tables t'.tables [child] records)
    (h : forEach purge children s = (.ok purgedBelow, s')) :
    Removes s.tables s'.tables children purgedBelow.flatten := by
  refine forEach_eq_ok
    (P := fun t children purged => Removes s.tables t.tables children purged.flatten)
    (Removes.nil _) (fun hP hchild => ?_) h
  rw [List.flatten_append, List.flatten_singleton]
  exact hP.append (hpurge hchild)

theorem purgeComment_nested_eq_ok {records : List PurgedCommentTableRows}
    (h : purgeComment foreignKeys random stack cid true s = (.ok records, s')) :
    Removes s.tables s'.tables [cid] records := by
  induction stack generalizing cid records s s' with
  | zero => exact absurd h not_fail_eq_ok
  | succ stack ih =>
    rw [purgeComment, if_pos rfl] at h
    obtain ⟨cids, s₁, hcids, h⟩ := bind_eq_ok.1 h
    obtain ⟨affected, s₂, haffected, h⟩ := bind_eq_ok.1 h
    obtain ⟨children, s₃, hchildren, h⟩ := bind_eq_ok.1 h
    obtain ⟨purgedBelow, s₄, hbelow, h⟩ := bind_eq_ok.1 h
    obtain ⟨purged, s₅, hself, h⟩ := bind_eq_ok.1 h
    obtain ⟨_, s₆, hforce, h⟩ := bind_eq_ok.1 h
    obtain ⟨rfl, rfl⟩ := pure_eq_ok.1 h
    obtain ⟨-, rfl⟩ := pure_eq_ok.1 haffected
    obtain ⟨-, rfl⟩ := pure_eq_ok.1 hforce
    obtain ⟨hmem, h₃⟩ := queryDirectChildren_eq_ok hchildren
    have h₁ := (getAllDescendantCids_eq_ok hcids).1
    obtain ⟨htables, hrecords⟩ := deleteComment_eq_ok hself
    have hremoves := purgeBelow_eq_ok ih hbelow
    rw [h₃, h₁] at hremoves
    rw [h₁] at hmem
    exact (Removes.of_children hmem hremoves htables hrecords).unique

/-! ### What is looked at again -/

/-- The recursive query has every comment above. -/
theorem DbTables.mem_parentChain {t : DbTables} {fuel : Nat} {parentCid : Cid} {chain : List Cid}
    (h : t.parentChain fuel parentCid = some chain) {ancestor : CommentsTableRow}
    (hancestor : ancestor ∈ t.comments) (habove : Descends t ancestor.cid parentCid) :
    ancestor.cid ∈ chain := by
  induction fuel generalizing parentCid chain with
  | zero => cases h
  | succ fuel ih =>
    rw [DbTables.parentChain] at h
    split at h
    · rename_i hnone
      have hmissing := DbTables.comment_eq_none.1 hnone
      generalize hcid : parentCid = x at habove
      subst hcid
      cases habove with
      | self => exact absurd rfl (hmissing _ hancestor)
      | reply hrow => exact absurd rfl (hmissing _ hrow)
    · rename_i row hrow
      obtain ⟨hmem, rfl⟩ := DbTables.comment_eq_some.1 hrow
      have habove' := habove.eq_or_above hmem
      split at h
      · rename_i hpost
        cases h
        rcases habove' with hself | ⟨above, hparent, -⟩
        · simp [hself]
        · rw [hpost] at hparent
          cases hparent
      · rename_i above hparent
        obtain ⟨rest, hrest, rfl⟩ := Option.map_eq_some_iff.1 h
        rcases habove' with hself | ⟨above', hparent', habove'⟩
        · simp [hself]
        · rw [hparent, Option.some.injEq] at hparent'
          subst hparent'
          exact List.mem_cons_of_mem _ (ih hrest habove')

/-- The author and the ancestors of a comment are among what is looked at again. -/
def Covers (t : DbTables) (cid : Cid) (affected : Affected) : Prop :=
  ∃ row ∈ t.comments, row.cid = cid ∧ row.authorSignerAddress ≠ "" ∧
    affected.authorSignerAddress = row.authorSignerAddress ∧
    ∀ ancestor ∈ t.comments, Descends t ancestor.cid cid → ancestor.cid ≠ cid →
      ancestor.cid ∈ affected.commentsToForceUpdate

theorem queryAffected_eq_ok {affected : Affected}
    (h : queryAffected stack cid s = (.ok affected, s')) :
    s'.tables = s.tables ∧ Covers s.tables cid affected := by
  obtain ⟨comment, s₁, hcomment, h⟩ := bind_eq_ok.1 h
  obtain ⟨rfl, h₁⟩ := queryComment_eq_ok hcomment
  cases hrow : s.tables.comment cid with
  | none =>
    rw [hrow] at h
    exact absurd h not_fail_eq_ok
  | some row =>
    rw [hrow] at h
    simp only at h
    split at h
    · exact absurd h not_fail_eq_ok
    · rename_i hauthor
      obtain ⟨votes, s₂, hvotes, h⟩ := bind_eq_ok.1 h
      obtain ⟨edits, s₃, hedits, h⟩ := bind_eq_ok.1 h
      obtain ⟨ancestors, s₄, hancestors, h⟩ := bind_eq_ok.1 h
      obtain ⟨rfl, rfl⟩ := pure_eq_ok.1 h
      have h₃ : s₃.tables = s.tables := by rw [(query_eq_ok hedits).2, (query_eq_ok hvotes).2, h₁]
      obtain ⟨hmem, rfl⟩ := DbTables.comment_eq_some.1 hrow
      have habove : s₄.tables = s.tables ∧ ∀ ancestor ∈ s.tables.comments,
          Descends s.tables ancestor.cid row.cid → ancestor.cid ≠ row.cid →
            ancestor.cid ∈ ancestors := by
        cases hparent : row.parentCid with
        | none =>
          rw [hparent] at hancestors
          obtain ⟨rfl, rfl⟩ := pure_eq_ok.1 hancestors
          refine ⟨h₃, fun ancestor _ hbelow hne => ?_⟩
          obtain ⟨above, habove, -⟩ := (hbelow.eq_or_above hmem).resolve_left hne
          rw [hparent] at habove
          cases habove
        | some above =>
          rw [hparent] at hancestors
          obtain ⟨hchain, rfl⟩ := query_eq_ok hancestors
          refine ⟨h₃, fun ancestor hancestor hbelow hne => ?_⟩
          obtain ⟨above', hparent', hbelow⟩ := (hbelow.eq_or_above hmem).resolve_left hne
          rw [hparent, Option.some.injEq] at hparent'
          subst hparent'
          split at hchain
          · cases hchain
          · rename_i chain hquery
            cases hchain
            rw [h₃] at hquery
            exact DbTables.mem_parentChain hquery hancestor hbelow
      refine ⟨habove.1, row, hmem, rfl, hauthor, rfl, fun ancestor hancestor hbelow hne => ?_⟩
      exact List.mem_append_right _ (habove.2 ancestor hancestor hbelow hne)

theorem DbTables.forceUpdate_forceUpdate (t : DbTables) (cids cids' : List Cid) :
    (t.forceUpdate cids).forceUpdate cids' = t.forceUpdate (cids ++ cids') := by
  ext1 <;> simp only [DbTables.forceUpdate]
  rw [List.map_map]
  refine List.map_congr_left fun row _ => ?_
  by_cases hin : row.cid ∈ cids <;> by_cases hin' : row.cid ∈ cids' <;>
    simp [Function.comp, hin, hin']

theorem DbTables.published_of_forceUpdate {t : DbTables} {cids : List Cid}
    {update : CommentUpdatesRow} (h : update ∈ (t.forceUpdate cids).commentUpdates) (hcid : update.cid ∈ cids) :
    update.publishedToPostUpdatesMFS = false := by
  obtain ⟨row, -, rfl⟩ := List.mem_map.1 h
  split
  · rfl
  · rename_i hout
    exact absurd (by rwa [if_neg hout] at hcid) hout

theorem DbTables.forceUpdate_nil (t : DbTables) : t.forceUpdate [] = t := by
  ext1 <;> simp [DbTables.forceUpdate]

/-- The batches are all the cids. -/
theorem runForEachCidBatch_eq_ok {batches : Nat} {cids : List Cid} {u : Unit}
    (hlength : cids.length ≤ batches) (h : runForEachCidBatch batches cids s = (.ok u, s')) :
    s'.tables = s.tables.forceUpdate cids := by
  induction batches generalizing cids s with
  | zero =>
    obtain ⟨-, rfl⟩ := pure_eq_ok.1 h
    rw [List.length_eq_zero_iff.1 (Nat.le_zero.1 hlength), DbTables.forceUpdate_nil]
  | succ batches ih =>
    cases cids with
    | nil =>
      obtain ⟨-, rfl⟩ := pure_eq_ok.1 h
      rw [DbTables.forceUpdate_nil]
    | cons cid cids =>
      obtain ⟨_, s₁, hbatch, h⟩ := bind_eq_ok.1 h
      have hrest : ((cid :: cids).drop 4096).length ≤ batches := by
        simp only [List.length_cons, List.length_drop] at hlength ⊢
        omega
      rw [ih hrest h, delete_eq_ok hbatch, DbTables.forceUpdate_forceUpdate, List.take_append_drop]

theorem forceUpdates_eq_ok {cids : List Cid} {affected : List Affected} {u : Unit}
    (h : forceUpdates random cids affected s = (.ok u, s')) :
    ∃ flagged, s'.tables = s.tables.forceUpdate flagged ∧
      (∀ row ∈ s.tables.comments,
        row.authorSignerAddress ∈ affected.map Affected.authorSignerAddress →
          row.cid ∈ flagged) ∧
      ∀ cid ∈ affected.flatMap Affected.commentsToForceUpdate, cid ∈ flagged := by
  obtain ⟨authorCids, s₁, hauthors, h⟩ := bind_eq_ok.1 h
  obtain ⟨randomComment, s₂, hrandom, h⟩ := bind_eq_ok.1 h
  obtain ⟨h₁, hcids⟩ := forEach_query_eq_ok
    (Q := fun t author cids => ∀ row ∈ t.comments, row.authorSignerAddress = author →
      row.cid ∈ cids) (fun hquery => by
        obtain ⟨ht, rfl⟩ := query_eq_ok hquery
        cases ht
        exact ⟨rfl, fun row hrow hauthor => by simp; exact ⟨row, ⟨hrow, hauthor⟩, rfl⟩⟩) hauthors
  have h₂ : s₂.tables = s.tables := by rw [(query_eq_ok hrandom).2, h₁]
  obtain ⟨t, t', hbatches, htables, htables'⟩ := savepoint_eq_ok h
  refine ⟨authorCids.flatten ++ affected.flatMap Affected.commentsToForceUpdate ++
    randomComment.toList, ?_, ?_, ?_⟩
  · rw [htables', runForEachCidBatch_eq_ok le_rfl hbatches, htables, h₂]
  · intro row hrow hauthor
    obtain ⟨cids, hin, hmem⟩ :=
      Results.exists_right_of_forall₂ hcids (List.mem_dedup.2 hauthor)
    exact List.mem_append_left _ (List.mem_append_left _
      (List.mem_flatten.2 ⟨cids, hin, hmem row hrow rfl⟩))
  · intro cid hcid
    exact List.mem_append_left _ (List.mem_append_right _ hcid)

/-- **What a purge does.**  The comment and its descendants are gone, with every CommentUpdate,
vote, edit and alias that refers to one of them, and nothing else is.  The records are the rows of
the comments that are gone, each once and with its CommentUpdate.  Flagged are the comments above,
and every other comment of an author who has lost one; a comment without a CommentUpdate is updated
in any case. -/
structure Purged (before after : DbTables) (cid : Cid) (records : List PurgedCommentTableRows) :
    Prop where
  exists_comment : ∃ row ∈ before.comments, row.cid = cid
  has_author : ∀ row ∈ before.comments, Descends before cid row.cid → row.authorSignerAddress ≠ ""
  tables : ∃ removed flagged, after = (before.remove removed).forceUpdate flagged ∧
    ∀ x, x ∈ removed ↔ Descends before cid x
  flagged : ∀ row ∈ after.comments, (Descends before row.cid cid ∨
      ∃ gone ∈ before.comments, Descends before cid gone.cid ∧
        gone.authorSignerAddress = row.authorSignerAddress) →
    ∀ update ∈ after.commentUpdates, update.cid = row.cid → update.publishedToPostUpdatesMFS = false
  mem_records : ∀ record, record ∈ records ↔
    ∃ row ∈ before.comments, Descends before cid row.cid ∧ record = before.purged row
  nodup : (records.map fun record => record.commentTableRow.cid).Nodup

theorem purgeComment_eq_ok {records : List PurgedCommentTableRows}
    (h : purgeComment foreignKeys random stack cid false s = (.ok records, s')) :
    Purged s.tables s'.tables cid records := by
  cases stack with
  | zero => exact absurd h not_fail_eq_ok
  | succ stack =>
    simp only [purgeComment, Bool.false_eq_true, if_false] at h
    obtain ⟨t₀, t₁, h, h₀, hend⟩ := transaction_eq_ok h
    obtain ⟨cids, s₁, hcids, h⟩ := bind_eq_ok.1 h
    obtain ⟨affected, s₂, haffected, h⟩ := bind_eq_ok.1 h
    obtain ⟨children, s₃, hchildren, h⟩ := bind_eq_ok.1 h
    obtain ⟨purgedBelow, s₄, hbelow, h⟩ := bind_eq_ok.1 h
    obtain ⟨purged, s₅, hself, h⟩ := bind_eq_ok.1 h
    obtain ⟨_, s₆, hforce, h⟩ := bind_eq_ok.1 h
    obtain ⟨rfl, rfl⟩ := pure_eq_ok.1 h
    obtain ⟨h₁, hmemCids⟩ := getAllDescendantCids_eq_ok hcids
    obtain ⟨h₂, hcovers⟩ := forEach_query_eq_ok (Q := Covers) queryAffected_eq_ok haffected
    obtain ⟨hmem, h₃⟩ := queryDirectChildren_eq_ok hchildren
    obtain ⟨htables, hrecords⟩ := deleteComment_eq_ok hself
    obtain ⟨flagged, hflagged, hauthors, habove⟩ := forceUpdates_eq_ok hforce
    have hremoves := purgeBelow_eq_ok purgeComment_nested_eq_ok hbelow
    rw [h₁, h₀] at hcovers
    rw [h₀] at hmemCids
    rw [h₂, h₁, h₀] at hmem
    rw [h₃, h₂, h₁, h₀] at hremoves
    have hall := (Removes.of_children hmem hremoves htables hrecords).unique
    obtain ⟨⟨removed, hremoved, hs₅⟩, hallRecords⟩ := hall
    simp only [List.mem_singleton, exists_eq_left] at hremoved hallRecords
    rw [hs₅] at hflagged hauthors
    have hcovered : ∀ x, Descends s.tables cid x → ∃ a ∈ affected, Covers s.tables x a :=
      fun x hx => Results.exists_right_of_forall₂ hcovers ((hmemCids x).2 hx)
    refine ⟨?_, ?_, ⟨removed, flagged, hend.trans hflagged, hremoved⟩,
      fun row hrow hreason update hupdate hcid => ?_, hallRecords, nodup_uniqueBy _ _⟩
    · obtain ⟨-, -, row, hrow, hcid, -⟩ := hcovered cid .self
      exact ⟨row, hrow, hcid⟩
    · intro row hrow hdown
      obtain ⟨-, -, row', hrow', hcid, hauthor, -⟩ := hcovered row.cid hdown
      rwa [List.inj_on_of_nodup_map s.tables.nodup_comments hrow' hrow hcid] at hauthor
    · have hkept : row ∈ (s.tables.remove removed).comments := by
        rw [hend, hflagged] at hrow
        exact hrow
      obtain ⟨hold, hout⟩ := List.mem_filter.1 hkept
      rw [hend, hflagged] at hupdate
      refine (DbTables.published_of_forceUpdate hupdate) (hcid ▸ ?_)
      rcases hreason with hup | ⟨gone, hgone, hdown, hauthor⟩
      · obtain ⟨a, ha, -, -, -, -, -, hancestors⟩ := hcovered cid .self
        refine habove _ (List.mem_flatMap.2 ⟨a, ha, hancestors row hold hup ?_⟩)
        rintro rfl
        exact absurd ((hremoved _).2 .self) (by simpa using hout)
      · obtain ⟨a, ha, row', hrow', hcid, -, hauthor', -⟩ := hcovered gone.cid hdown
        refine hauthors row hkept (List.mem_map.2 ⟨a, ha, ?_⟩)
        rw [hauthor', List.inj_on_of_nodup_map s.tables.nodup_comments hrow' hgone hcid, hauthor]

/-- The moderation is stored after the purge. -/
theorem storePurge_eq_ok {modTableRow : CommentModerationTableRow}
    {records : List PurgedCommentTableRows}
    (h : storePurge foreignKeys random stack modTableRow s = (.ok records, s')) :
    ∃ purged, Purged s.tables purged modTableRow.commentCid records ∧
      s'.tables = { purged with
        commentModerations := purged.commentModerations ++ [modTableRow] } := by
  obtain ⟨comment, s₁, hcomment, h⟩ := bind_eq_ok.1 h
  have h₁ := (queryComment_eq_ok hcomment).2
  split at h
  · exact absurd h not_fail_eq_ok
  · obtain ⟨t₀, t₁, h, h₀, hend⟩ := transaction_eq_ok h
    obtain ⟨purged, s₂, hpurge, h⟩ := bind_eq_ok.1 h
    obtain ⟨_, s₃, hinsert, h⟩ := bind_eq_ok.1 h
    obtain ⟨rfl, rfl⟩ := pure_eq_ok.1 h
    have hpurged := purgeComment_eq_ok hpurge
    rw [h₀, h₁] at hpurged
    obtain ⟨t, ht, rfl⟩ := update_eq_ok hinsert
    cases ht
    exact ⟨s₂.tables, hpurged, hend⟩

/-! ## The result -/

theorem purgeComment_closed (foreignKeys : Bool) (random stack : Nat) (cid : Cid)
    (hs : Closed s) :
    Closed (purgeComment foreignKeys random stack cid false s).2 ∧
      ∀ e, (purgeComment foreignKeys random stack cid false s).1 = .error e →
        (purgeComment foreignKeys random stack cid false s).2.tables = s.tables := by
  cases stack with
  | zero => exact ⟨hs, fun _ _ => rfl⟩
  | succ stack => exact transaction_closed (inside_purgeBody fun _ => inside_purgeComment) hs

theorem storePurge_closed (foreignKeys : Bool) (random stack : Nat)
    (modTableRow : CommentModerationTableRow) (hs : Closed s) :
    Closed (storePurge foreignKeys random stack modTableRow s).2 ∧
      ∀ e, (storePurge foreignKeys random stack modTableRow s).1 = .error e →
        (storePurge foreignKeys random stack modTableRow s).2.tables = s.tables := by
  rw [storePurge, Op.bind]
  cases hcomment : queryComment modTableRow.commentCid s with
  | mk r s₁ =>
    obtain ⟨htables, hclosed⟩ := query_closed hs hcomment
    cases r with
    | error e => exact ⟨hclosed, fun _ _ => htables⟩
    | ok comment =>
      simp only
      split
      · exact ⟨hclosed, fun _ _ => htables⟩
      · have hin : Inside ((purgeComment foreignKeys random stack modTableRow.commentCid
            false).bind fun purged =>
              (insertCommentModerations [modTableRow]).bind fun _ => Op.pure purged) :=
          inside_purgeComment.bind fun _ => (inside_update _ _).bind fun _ => inside_pure _
        obtain ⟨hend, hthrown⟩ := transaction_closed hin hclosed
        exact ⟨hend, fun e he => (hthrown e he).trans htables⟩

end Statements

/-- **Purging is exact and atomic.**  Whatever statement fails, a purge that ends has done all of
`Purged`, and one that throws nothing; and so has a purge together with its moderation, in one
transaction. -/
theorem purge_exact_and_atomic (foreignKeys : Bool) (random stack : Nat) (s : Session DbTables)
    (hs : Closed s) :
    (∀ cid,
      (∀ records s', purgeComment foreignKeys random stack cid false s = (.ok records, s') →
        Purged s.tables s'.tables cid records ∧ Closed s') ∧
      ∀ e s', purgeComment foreignKeys random stack cid false s = (.error e, s') →
        s'.tables = s.tables ∧ Closed s') ∧
    ∀ modTableRow,
      (∀ records s', storePurge foreignKeys random stack modTableRow s = (.ok records, s') →
        (∃ purged, Purged s.tables purged modTableRow.commentCid records ∧
          s'.tables = { purged with
            commentModerations := purged.commentModerations ++ [modTableRow] }) ∧ Closed s') ∧
      ∀ e s', storePurge foreignKeys random stack modTableRow s = (.error e, s') →
        s'.tables = s.tables ∧ Closed s' := by
  refine ⟨fun cid => ⟨fun records s' h => ?_, fun e s' h => ?_⟩,
    fun modTableRow => ⟨fun records s' h => ?_, fun e s' h => ?_⟩⟩
  · have hclosed := purgeComment_closed foreignKeys random stack cid hs
    rw [h] at hclosed
    exact ⟨purgeComment_eq_ok h, hclosed.1⟩
  · have hclosed := purgeComment_closed foreignKeys random stack cid hs
    rw [h] at hclosed
    exact ⟨hclosed.2 e rfl, hclosed.1⟩
  · have hclosed := storePurge_closed foreignKeys random stack modTableRow hs
    rw [h] at hclosed
    exact ⟨storePurge_eq_ok h, hclosed.1⟩
  · have hclosed := storePurge_closed foreignKeys random stack modTableRow hs
    rw [h] at hclosed
    exact ⟨hclosed.2 e rfl, hclosed.1⟩

/-! ## A thread -/

theorem exists_of_isSome {α β : Type} {r : Except DbError α × β}
    (h : r.1.toOption.isSome = true) : ∃ a b, r = (.ok a, b) := by
  obtain ⟨r, b⟩ := r
  cases r with
  | error e => cases h
  | ok a => exact ⟨a, b, rfl⟩

/-- A post, a reply to it and a reply to that, two of them with a CommentUpdate, and two votes. -/
def thread : DbTables where
  comments := [⟨1, "post", none, "post", "alice", some "s1"⟩,
    ⟨2, "reply", some "post", "post", "bob", some "s2"⟩,
    ⟨3, "answer", some "reply", "post", "alice", some "s3"⟩]
  commentUpdates := [⟨1, "post", some "u1", ⟨some 86400, none⟩, true⟩,
    ⟨2, "reply", some "u2", ⟨some 86400, none⟩, true⟩]
  votes := [⟨"answer", "bob"⟩, ⟨"post", "carol"⟩]
  commentEdits := []
  commentModerations := []
  pseudonymityAliases := [⟨"reply"⟩]
  nodup_comments := by decide
  nodup_rowids := by decide

def threadSession : Session DbTables := { tables := thread }

/-- The moderator's request to purge the reply. -/
def purgeOfReply : CommentModerationTableRow := ⟨1, "reply", some "m1"⟩

theorem purge_exact_and_atomic_thread :
    ∃ records s', storePurge true 0 3 purgeOfReply threadSession = (.ok records, s') ∧
      (∃ purged, Purged thread purged "reply" records ∧ s'.tables = { purged with
        commentModerations := purged.commentModerations ++ [purgeOfReply] }) ∧
      Closed s' ∧ s'.tables.votes = [⟨"post", "carol"⟩] := by
  have hok : (storePurge true 0 3 purgeOfReply threadSession).1.toOption.isSome = true := by
    decide +kernel
  have hvotes : (storePurge true 0 3 purgeOfReply threadSession).2.tables.votes =
      [⟨"post", "carol"⟩] := by decide +kernel
  obtain ⟨records, s', hrun⟩ := exists_of_isSome hok
  rw [hrun] at hvotes
  obtain ⟨-, hspec⟩ := purge_exact_and_atomic true 0 3 threadSession ⟨rfl, rfl⟩
  obtain ⟨hpurged, hclosed⟩ := (hspec purgeOfReply).1 records s' hrun
  exact ⟨records, s', hrun, hpurged, hclosed, hvotes⟩

end Database
end Pkc

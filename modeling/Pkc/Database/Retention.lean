import Mathlib.Algebra.Order.Field.Rat
import Pkc.Database.Duplicates

/-!
# Purging what was disapproved

A community may keep disapproved comments for some time only.  The comments that are due are listed
once and then purged one after the other, each with all its replies and in a transaction of its own.
What the purges return is what is unpinned and removed from the files of the node afterwards.

* `purgeDisapprovedCommentsOlderThan` is the purge, `PurgesDisapproved` what it is for: it ends,
  what is due is gone, and every comment that is gone is reported once.
* `purgesDisapproved_iff` says when it does that: no comment that is listed is below one that is
  listed before it.
* `not_purgesDisapproved`: a reply that is listed after the post it belongs to makes the purge throw
  when the post is gone already, and nothing is reported of that post.

Every statement takes effect here.  SQLite lists the comments in an order of its own.
-/

set_option autoImplicit false

namespace Pkc
namespace Database

open Transactions

/-! ## The purge -/

/-- Columns that no purge reads. -/
structure DisapprovalColumns where
  approved : CommentUpdatesRow → Option Bool
  updatedAt : CommentUpdatesRow → Nat
  /-- `commentModeration.approved`. -/
  moderatedAs : CommentModerationTableRow → Option Bool
  timestamp : CommentModerationTableRow → Nat

/-- A comment that is due. -/
structure DisapprovedComment where
  cid : Cid
  parentCid : Option Cid
  postUpdatesBucket : Option Nat
deriving DecidableEq, Repr

structure PurgedDetails where
  comment : DisapprovedComment
  purgedTableRows : List PurgedCommentTableRows
deriving DecidableEq, Repr

/-- When a comment was first disapproved; without a moderation that did, when its CommentUpdate was
calculated. -/
def firstDisapprovedAt (columns : DisapprovalColumns) (t : DbTables) (update : CommentUpdatesRow) :
    Nat :=
  ((t.commentModerations.filter fun row =>
    row.commentCid = update.cid && columns.moderatedAs row = some false).map
      columns.timestamp).min?.getD (columns.updatedAt update)

/-- The comments that were disapproved no later than the cutoff. -/
def disapprovedComments (columns : DisapprovalColumns) (cutoff : ℚ) (t : DbTables) :
    List DisapprovedComment :=
  t.commentUpdates.filterMap fun update => (t.comment update.cid).bind fun row =>
    if columns.approved update = some false ∧ (firstDisapprovedAt columns t update : ℚ) ≤ cutoff then
      some ⟨row.cid, row.parentCid, update.place.postUpdatesBucket.filter (0 < ·)⟩
    else none

/-- `order` is the order of the rows.  A number of seconds that is not finite is `none`. -/
def purgeDisapprovedCommentsOlderThan (columns : DisapprovalColumns)
    (order : List DisapprovedComment → List DisapprovedComment) (random : Cid → Nat)
    (stack now : Nat)
    (retentionSeconds : Option ℚ) : DbOp (Option (List PurgedDetails)) :=
  match retentionSeconds.filter (0 < ·) with
  | none => Op.pure none
  | some retention =>
    (query .sqliteError fun t =>
      .ok (order (disapprovedComments columns (now - retention) t))).bind fun rows =>
    if rows.isEmpty then Op.pure none
    else
      (forEach (fun row => (purgeComment true (random row.cid) stack row.cid false).bind fun records =>
        Op.pure ⟨row, records⟩) rows).bind fun details => Op.pure (some details)

/-! ## What it is for -/

def reported (details : List PurgedDetails) : List PurgedCommentTableRows :=
  details.flatMap PurgedDetails.purgedTableRows

/-- The rows are those of the comments that are gone, each once. -/
structure Reports (before after : DbTables) (records : List PurgedCommentTableRows) : Prop where
  mem : ∀ record, record ∈ records ↔
    ∃ row ∈ before.comments, row ∉ after.comments ∧ record = before.purged row
  nodup : (records.map fun record => record.commentTableRow.cid).Nodup

def PurgesDisapproved (columns : DisapprovalColumns)
    (order : List DisapprovedComment → List DisapprovedComment) (random : Cid → Nat)
    (stack now : Nat) (retention : ℚ) (t : DbTables) : Prop :=
  ∃ result s',
    purgeDisapprovedCommentsOlderThan columns order random stack now (some retention)
      { tables := t } = (.ok result, s') ∧
    (∀ comment ∈ disapprovedComments columns (now - retention) t, ∀ row ∈ s'.tables.comments,
      row.cid ≠ comment.cid) ∧
    Reports t s'.tables (reported (result.getD []))

/-- What the database and those who write to it see to: the comments are a forest, and the post of a
comment is above it. -/
structure Threaded (t : DbTables) : Prop where
  forest : Forest t
  posts : ∀ row ∈ t.comments, Descends t row.postCid row.cid

/-- The condition under which it does that, for the comments that are listed. -/
structure DisapprovedApart (t : DbTables) (due : List DisapprovedComment) : Prop where
  /-- No comment is purged with one that is listed before it. -/
  listed : due.Pairwise fun comment comment' => ¬ Descends t comment.cid comment'.cid
  /-- Every comment that is purged has an author. -/
  has_author : ∀ comment ∈ due, ∀ row ∈ t.comments, Descends t comment.cid row.cid →
    row.authorSignerAddress ≠ ""

/-! ## The loop -/

section Loop

variable {t t' t'' : DbTables} {done : List DisapprovedComment} {details : List PurgedDetails}
  {comment : DisapprovedComment} {records : List PurgedCommentTableRows}

/-- What the purges so far have done and returned. -/
structure ReportedSoFar (t t' : DbTables) (done : List DisapprovedComment)
    (details : List PurgedDetails) : Prop where
  purged : PurgedSoFar t t' (done.map DisapprovedComment.cid)
  places : ∀ row ∈ t'.comments, t'.purged row = t.purged row
  reports : Reports t t' (reported details)

theorem ReportedSoFar.nil (t : DbTables) : ReportedSoFar t t [] [] where
  purged := ⟨Left.nil t, .nil, nofun⟩
  places := fun _ _ => rfl
  reports := ⟨fun _ => ⟨nofun, fun ⟨_, hrow, hgone, _⟩ => absurd hrow hgone⟩, List.nodup_nil⟩

theorem DbTables.purged_forceUpdate (t : DbTables) (cids : List Cid) (row : CommentsTableRow) :
    (t.forceUpdate cids).purged row = t.purged row := by
  have hplace : ∀ update : CommentUpdatesRow, (if update.cid ∈ cids then
      { update with publishedToPostUpdatesMFS := false } else update).place = update.place ∧
      (if update.cid ∈ cids then { update with publishedToPostUpdatesMFS := false }
        else update).cid = update.cid := by
    intro update
    split <;> exact ⟨rfl, rfl⟩
  rw [DbTables.purged, DbTables.purged, DbTables.commentUpdate, DbTables.commentUpdate,
    DbTables.forceUpdate, List.find?_map]
  simp only [Function.comp_def, hplace, Option.map_map]

/-- A purge keeps the places of the files of what is left. -/
theorem Purged.places {cid : Cid} (h : Purged t t' cid records) {row : CommentsTableRow}
    (hrow : row ∈ t'.comments) : t'.purged row = t.purged row := by
  obtain ⟨removed, flagged, rfl, -⟩ := h.tables
  rw [DbTables.purged_forceUpdate]
  exact DbTables.purged_remove (by simpa using (List.mem_filter.1 hrow).2)

theorem Purged.mem_comments {cid : Cid} (h : Purged t t' cid records) {row : CommentsTableRow} :
    row ∈ t'.comments ↔ row ∈ t.comments ∧ ¬ Descends t cid row.cid := by
  obtain ⟨removed, flagged, rfl, hremoved⟩ := h.tables
  rw [← hremoved]
  simp [DbTables.forceUpdate, DbTables.remove]

theorem ReportedSoFar.snoc (h : ReportedSoFar t t' done details)
    (hpurged : Purged t' t'' comment.cid records) :
    ReportedSoFar t t'' (done ++ [comment]) (details ++ [⟨comment, records⟩]) := by
  have hreported : reported (details ++ [⟨comment, records⟩]) = reported details ++ records := by
    simp [reported]
  have hsub : ∀ row ∈ t'.comments, row ∈ t.comments := fun row hrow =>
    (h.purged.left.mem_iff.1 hrow).1
  refine ⟨?_, fun row hrow => ?_, ?_⟩
  · rw [List.map_append, List.map_singleton]
    exact h.purged.snoc hpurged
  · rw [hpurged.places hrow, h.places row (hpurged.mem_comments.1 hrow).1]
  · rw [hreported]
    refine ⟨fun record => ?_, ?_⟩
    · rw [List.mem_append, h.reports.mem, hpurged.mem_records]
      constructor
      · rintro (⟨row, hrow, hgone, rfl⟩ | ⟨row, hrow, hbelow, rfl⟩)
        · exact ⟨row, hrow, fun hleft => hgone (hpurged.mem_comments.1 hleft).1, rfl⟩
        · exact ⟨row, hsub row hrow, fun hleft => (hpurged.mem_comments.1 hleft).2 hbelow,
            h.places row hrow⟩
      · rintro ⟨row, hrow, hgone, rfl⟩
        by_cases hleft : row ∈ t'.comments
        · refine .inr ⟨row, hleft, ?_, (h.places row hleft).symm⟩
          by_contra hnot
          exact hgone (hpurged.mem_comments.2 ⟨hleft, hnot⟩)
        · exact .inl ⟨row, hrow, hleft, rfl⟩
    · rw [List.map_append, List.nodup_append]
      refine ⟨h.reports.nodup, hpurged.nodup, ?_⟩
      intro cid hcid other hother heq
      obtain ⟨record, hrecord, rfl⟩ := List.mem_map.1 hcid
      obtain ⟨record', hrecord', rfl⟩ := List.mem_map.1 hother
      obtain ⟨row, hrow, hgone, rfl⟩ := (h.reports.mem record).1 hrecord
      obtain ⟨row', hrow', -, rfl⟩ := (hpurged.mem_records record').1 hrecord'
      have hsame : row = row' := List.inj_on_of_nodup_map t.nodup_comments hrow
        (hsub row' hrow') heq
      exact hgone (hsame ▸ hrow')

end Loop

/-! ## The result -/

section Result

variable {columns : DisapprovalColumns} {order : List DisapprovedComment → List DisapprovedComment}
  {random : Cid → Nat} {stack now : Nat} {retention : ℚ} {t : DbTables} {s s' : Session DbTables}

theorem exists_of_mem_disapprovedComments {cutoff : ℚ} {comment : DisapprovedComment}
    (h : comment ∈ disapprovedComments columns cutoff t) :
    ∃ row ∈ t.comments, row.cid = comment.cid := by
  obtain ⟨update, -, hrow⟩ := List.mem_filterMap.1 h
  obtain ⟨row, hfound, heq⟩ := Option.bind_eq_some_iff.1 hrow
  split at heq
  · obtain rfl := Option.some.inj heq
    exact ⟨row, (DbTables.comment_eq_some.1 hfound).1, rfl⟩
  · cases heq

/-- A purge that ends has purged what was listed, and reports it. -/
theorem purgeDisapproved_eq_ok (hpos : 0 < retention) {result : Option (List PurgedDetails)}
    (hs : s.tables = t)
    (h : purgeDisapprovedCommentsOlderThan columns order random stack now (some retention) s =
      (.ok result, s')) :
    ReportedSoFar t s'.tables (order (disapprovedComments columns (now - retention) t))
      (result.getD []) := by
  have hfilter : (some retention).filter (0 < ·) = some retention := by simp [hpos]
  rw [purgeDisapprovedCommentsOlderThan, hfilter] at h
  obtain ⟨rows, s₁, hquery, h⟩ := bind_eq_ok.1 h
  obtain ⟨hrows, h₁⟩ := query_eq_ok hquery
  rw [hs] at hrows
  obtain rfl := Except.ok.inj hrows
  have hs₁ : s₁.tables = t := by rw [h₁, hs]
  split at h
  · rename_i hempty
    obtain ⟨rfl, rfl⟩ := pure_eq_ok.1 h
    rw [List.isEmpty_iff.1 hempty, hs₁]
    exact ReportedSoFar.nil t
  · obtain ⟨details, s₂, hloop, h⟩ := bind_eq_ok.1 h
    obtain ⟨rfl, rfl⟩ := pure_eq_ok.1 h
    refine forEach_eq_ok (P := fun s done details => ReportedSoFar t s.tables done details)
      (hs₁ ▸ ReportedSoFar.nil t) (fun hdone hround => ?_) hloop
    obtain ⟨records, s₃, hpurge, hend⟩ := bind_eq_ok.1 hround
    obtain ⟨rfl, rfl⟩ := pure_eq_ok.1 hend
    exact hdone.snoc (purgeComment_eq_ok hpurge)

theorem Left.sturdy {height : Cid → Nat} {bound : Nat} {t' : DbTables} {roots : List Cid}
    (h : Left t t' roots) (hsturdy : Sturdy true height bound t) : Sturdy true height bound t' := by
  refine ⟨hsturdy.ranked.mono fun row hrow => (h.mem_iff.1 hrow).1, fun hkeys row hrow => ?_⟩
  obtain ⟨hold, hout⟩ := h.mem_iff.1 hrow
  exact (h.descends (hsturdy.posts hkeys row hold)).resolve_left hout

variable (random) in
theorem returns_purgeDisapproved {height : Cid → Nat} {bound : Nat}
    (hsturdy : Sturdy true height bound t) (hstack : bound + 2 < stack)
    (hthere : ∀ comment ∈ order (disapprovedComments columns (now - retention) t),
      ∃ row ∈ t.comments, row.cid = comment.cid)
    (hpos : 0 < retention)
    (happart : DisapprovedApart t (order (disapprovedComments columns (now - retention) t))) :
    Returns (purgeDisapprovedCommentsOlderThan columns order random stack now (some retention))
      { tables := t } := by
  have hs : ({ tables := t } : Session DbTables).Undisturbed := rfl
  have hfilter : (some retention).filter (0 < ·) = some retention := by simp [hpos]
  rw [purgeDisapprovedCommentsOlderThan, hfilter]
  refine (returns_query hs _).bind fun rows s₁ hrows hs₁ => ?_
  obtain ⟨hquery, h₁⟩ := query_eq_ok hrows
  obtain rfl := Except.ok.inj hquery
  split
  · exact returns_pure hs₁ _
  · refine Returns.bind ?_ fun details s₂ _ hs₂ => returns_pure hs₂ _
    refine returns_forEach (P := fun s done => Closed s ∧ ∃ details,
      ReportedSoFar t s.tables done details) ?_ hs₁ ⟨by rw [h₁]; exact ⟨rfl, rfl⟩, [], ?_⟩
    swap
    · rw [h₁]
      exact ReportedSoFar.nil t
    rintro done comment rest hsplit s hs ⟨hclosed, details, hdone⟩
    obtain ⟨row, hrow, hcid⟩ := hthere comment (by rw [hsplit]; simp)
    have hlisted := happart.listed
    rw [hsplit, List.pairwise_append] at hlisted
    have hleft := hdone.purged.left
    have hkept : ∀ row ∈ s.tables.comments, row ∈ t.comments := fun row hrow =>
      (hleft.mem_iff.1 hrow).1
    have hrow' : row ∈ s.tables.comments := by
      refine hleft.mem_iff.2 ⟨hrow, ?_⟩
      rintro ⟨root, hroot, hbelow⟩
      obtain ⟨earlier, hearlier, rfl⟩ := List.mem_map.1 hroot
      exact hlisted.2.2 earlier hearlier comment (by simp) (hcid ▸ hbelow)
    have hauthor : ∀ below ∈ s.tables.comments, Descends s.tables row.cid below.cid →
        below.authorSignerAddress ≠ "" := fun below hbelow hdown =>
      happart.has_author comment (by rw [hsplit]; simp) below (hkept below hbelow)
        (hcid ▸ hleft.of_descends hdown)
    have hpurges : Returns (purgeComment true (random comment.cid) stack comment.cid false) s := by
      rw [← hcid]
      exact returns_purgeComment hs hclosed (hleft.sturdy hsturdy) hstack hrow' hauthor
    refine ⟨hpurges.bind fun records s' _ hs' => returns_pure hs' _, fun detail s' h => ?_⟩
    obtain ⟨records, s₃, hpurge, hend⟩ := bind_eq_ok.1 h
    obtain ⟨rfl, rfl⟩ := pure_eq_ok.1 hend
    refine ⟨?_, details ++ [⟨comment, records⟩], hdone.snoc (purgeComment_eq_ok hpurge)⟩
    have hend := (purgeComment_closed true (random comment.cid) stack comment.cid hclosed).1
    rwa [hpurge] at hend

theorem ReportedSoFar.gone {t' : DbTables} {listed done : List DisapprovedComment}
    {details : List PurgedDetails} (h : ReportedSoFar t t' done details)
    (hperm : done.Perm listed) :
    ∀ comment ∈ listed, ∀ row ∈ t'.comments, row.cid ≠ comment.cid := by
  intro comment hcomment row hrow heq
  refine (h.purged.left.mem_iff.1 hrow).2
    ⟨comment.cid, List.mem_map_of_mem (hperm.mem_iff.2 hcomment), ?_⟩
  rw [heq]
  exact .self

/-- **The purge of what was disapproved.**  With a call stack that is deep enough, it does what it
is for if and only if the comments that are due are apart. -/
theorem purgesDisapproved_iff (columns : DisapprovalColumns)
    (order : List DisapprovedComment → List DisapprovedComment) (random : Cid → Nat) (now : Nat)
    (retention : ℚ) (t : DbTables) (hthreaded : Threaded t)
    (horder : ∀ rows, (order rows).Perm rows)
    (hpos : 0 < retention) :
    ∃ depth, ∀ stack, depth ≤ stack →
      (PurgesDisapproved columns order random stack now retention t ↔
        DisapprovedApart t (order (disapprovedComments columns (now - retention) t))) := by
  obtain ⟨height, bound, hranked⟩ := hthreaded.forest.ranked
  refine ⟨bound + 3, fun stack hstack => ⟨?_, fun happart => ?_⟩⟩
  · rintro ⟨result, s', hrun, -, -⟩
    obtain ⟨-, hlisted, hauthor⟩ := (purgeDisapproved_eq_ok hpos rfl hrun).purged
    rw [List.pairwise_map] at hlisted
    exact ⟨hlisted, fun comment hcomment =>
      hauthor comment.cid (List.mem_map_of_mem hcomment)⟩
  · have hsturdy : Sturdy true height bound t := ⟨hranked, fun _ => hthreaded.posts⟩
    obtain ⟨result, s', hrun, -⟩ := returns_purgeDisapproved random hsturdy
      (show bound + 2 < stack by omega)
      (fun comment hcomment =>
        exists_of_mem_disapprovedComments ((horder _).mem_iff.1 hcomment)) hpos happart
    have hreported := purgeDisapproved_eq_ok hpos rfl hrun
    exact ⟨result, s', hrun, hreported.gone (horder _), hreported.reports⟩

end Result

/-! ## A reply below a post -/

/-- Nothing was moderated; what was calculated is not approved. -/
def neverModerated : DisapprovalColumns where
  approved := fun _ => some false
  updatedAt := fun _ => 10
  moderatedAs := fun _ => none
  timestamp := fun _ => 0

/-- A post and its reply, and the updates of `listed`. -/
def postWithReply (listed : List Cid) : DbTables where
  comments := [⟨1, "post", none, "post", "alice", none⟩,
    ⟨2, "reply", some "post", "post", "bob", none⟩]
  commentUpdates := listed.zipIdx.map fun (cid, index) => ⟨index, cid, none, ⟨some 86400, none⟩, true⟩
  votes := []
  commentEdits := []
  commentModerations := []
  pseudonymityAliases := []
  nodup_comments := by decide
  nodup_rowids := by decide

theorem threaded_postWithReply (listed : List Cid) : Threaded (postWithReply listed) := by
  refine ⟨⟨by simp [postWithReply], String.length, ?_⟩, fun row hrow => ?_⟩
  · intro row hrow parentCid hparent
    rcases List.mem_pair.1 hrow with rfl | rfl
    · cases hparent
    · cases hparent
      decide
  · rcases List.mem_pair.1 hrow with rfl | rfl
    · exact .self
    · exact .reply hrow (show _ = some "post" from rfl) .self

theorem purgesDisapproved_iff_replyFirst : ∃ depth, ∀ stack, depth ≤ stack →
    PurgesDisapproved neverModerated id (fun _ => 0) stack 100 50
      (postWithReply ["reply", "post"]) := by
  obtain ⟨depth, hdepth⟩ := purgesDisapproved_iff neverModerated id (fun _ => 0) 100 50
    (postWithReply ["reply", "post"]) (threaded_postWithReply _)
    (fun rows => .refl rows) (by decide)
  refine ⟨depth, fun stack hstack => (hdepth stack hstack).2 ⟨?_, ?_⟩⟩
  · have hdue : disapprovedComments neverModerated ((100 : Nat) - 50)
        (postWithReply ["reply", "post"]) =
          [⟨"reply", some "post", some 86400⟩, ⟨"post", none, some 86400⟩] := by decide +kernel
    rw [hdue]
    refine List.pairwise_pair.2 fun hbelow => ?_
    generalize hcid : (⟨"post", none, some 86400⟩ : DisapprovedComment).cid = cid at hbelow
    cases hbelow with
    | self => exact absurd hcid (by decide)
    | reply hrow hparent =>
      rcases List.mem_pair.1 hrow with rfl | rfl
      · cases hparent
      · exact absurd hcid (by decide)
  · intro comment _ row hrow _
    rcases List.mem_pair.1 hrow with rfl | rfl <;> decide

/-- **The purge loses what it removed.**  A reply that is listed after its post is gone with the
post when its turn comes: the purge throws, and returns nothing of the post. -/
theorem not_purgesDisapproved :
    Threaded (postWithReply ["post", "reply"]) ∧
    ¬ PurgesDisapproved neverModerated id (fun _ => 0) 100 100 50
      (postWithReply ["post", "reply"]) ∧
    (purgeDisapprovedCommentsOlderThan neverModerated id (fun _ => 0) 100 100 (some 50)
      { tables := postWithReply ["post", "reply"] }).1 = .error (.commentNotFound "reply") ∧
    (purgeDisapprovedCommentsOlderThan neverModerated id (fun _ => 0) 100 100 (some 50)
      { tables := postWithReply ["post", "reply"] }).2.tables.comments = [] := by
  have hthrows : (purgeDisapprovedCommentsOlderThan neverModerated id (fun _ => 0) 100 100 (some 50)
      { tables := postWithReply ["post", "reply"] }).1 = .error (.commentNotFound "reply") := by
    decide +kernel
  refine ⟨threaded_postWithReply _, ?_, hthrows, by decide +kernel⟩
  rintro ⟨result, s', hrun, -⟩
  rw [hrun] at hthrows
  cases hthrows

end Database
end Pkc

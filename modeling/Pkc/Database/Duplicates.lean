import Mathlib.Algebra.Order.BigOperators.Group.List
import Mathlib.Algebra.Order.Group.Nat
import Pkc.Database.Purge

/-!
# Purging duplicates

A migration to a new schema removes the publications that were stored twice.  A row is a duplicate
if an older row of its table has the same author signature.  The duplicates among the comments are
listed once and then purged one after the other, each with all its replies, while no foreign key is
enforced.

* `purgePublicationTablesWithDuplicateSignatures` is that part of the migration, `PurgesDuplicates`
  what it is for: it ends, every signature has one comment, and the comments are a forest.
* `purgesDuplicates_iff` says when it does that: no duplicate is below one that is listed before it,
  and below a duplicate there are duplicates only.
* `not_purgesDuplicates`: a reply to a duplicate is lost, and a duplicate below a duplicate makes
  the migration throw.

Every statement takes effect here.  A purge draws the comment that it flags at random.
-/

set_option autoImplicit false

namespace Pkc
namespace Database

open Transactions

/-! ## The migration -/

section Duplicates

variable {α : Type} (rowid : α → Nat) (signature : α → Option String)

/-- An older row has the signature. -/
def isDuplicate (rows : List α) (newer : α) : Bool :=
  (signature newer).isSome && rows.any fun older =>
    signature older = signature newer && rowid older < rowid newer

def duplicateRows (rows : List α) : List α := rows.filter (isDuplicate rowid signature rows)

/-- `DELETE FROM … WHERE rowid = ?` for each of the duplicates. -/
def deleteMany (rows : List α) : List α :=
  rows.filter fun row => rowid row ∉ (duplicateRows rowid signature rows).map rowid

end Duplicates

def DbTables.duplicateComments (t : DbTables) : List CommentsTableRow :=
  duplicateRows CommentsTableRow.rowid CommentsTableRow.signature t.comments

def queryDuplicateCids : DbOp (List Cid) :=
  query .sqliteError fun t => .ok (t.duplicateComments.map CommentsTableRow.cid)

/-- The comments first, then the tables whose rows have no other rows below them. -/
def purgePublicationTablesWithDuplicateSignatures (random : Cid → Nat) (stack : Nat) : DbOp Unit :=
  queryDuplicateCids.bind fun duplicateCids =>
  (forEach (fun cid => purgeComment false (random cid) stack cid false) duplicateCids).bind fun _ =>
  (delete fun t => { t with
    commentEdits := deleteMany CommentEditsTableRow.rowid CommentEditsTableRow.signature
      t.commentEdits }).bind fun _ =>
  (delete fun t => { t with
    commentModerations := deleteMany CommentModerationTableRow.rowid
      CommentModerationTableRow.signature t.commentModerations }).bind fun _ =>
  delete fun t => { t with
    commentUpdates := deleteMany CommentUpdatesRow.rowid CommentUpdatesRow.signature
      t.commentUpdates }

/-! ## What it is for -/

/-- The parents are there, and lead up to a post. -/
structure Forest (t : DbTables) : Prop where
  parent : ∀ row ∈ t.comments, ∀ parentCid, row.parentCid = some parentCid →
    ∃ parent ∈ t.comments, parent.cid = parentCid
  acyclic : ∃ height : Cid → Nat, ∀ row ∈ t.comments, ∀ parentCid, row.parentCid = some parentCid →
    height parentCid < height row.cid

/-- Every signature that a comment has had has one comment. -/
def OneForEachSignature (before after : DbTables) : Prop :=
  ∀ signature, (∃ row ∈ before.comments, row.signature = some signature) →
    ∃! row, row ∈ after.comments ∧ row.signature = some signature

def PurgesDuplicates (random : Cid → Nat) (stack : Nat) (t : DbTables) : Prop :=
  ∃ s', purgePublicationTablesWithDuplicateSignatures random stack { tables := t } = (.ok (), s') ∧
    OneForEachSignature t s'.tables ∧ Forest s'.tables

/-- The condition under which it does that. -/
structure DuplicatesApart (t : DbTables) : Prop where
  /-- No duplicate is purged with one that is listed before it. -/
  listed : (t.duplicateComments.map CommentsTableRow.cid).Pairwise fun cid cid' =>
    ¬ Descends t cid cid'
  /-- A signed comment below a duplicate is a duplicate. -/
  below : ∀ duplicate ∈ t.duplicateComments, ∀ row ∈ t.comments,
    Descends t duplicate.cid row.cid → row.signature ≠ none → row ∈ t.duplicateComments
  /-- Every comment that is purged has an author. -/
  has_author : ∀ duplicate ∈ t.duplicateComments, ∀ row ∈ t.comments,
    Descends t duplicate.cid row.cid → row.authorSignerAddress ≠ ""

/-! ## The purges end -/

section Returns

variable {height : Cid → Nat} {bound random stack : Nat} {cid : Cid} {s s' : Session DbTables}
  {t t' : DbTables} {foreignKeys : Bool}

/-- The replies are higher than what they reply to, and none is higher than `bound`. -/
def Ranked (height : Cid → Nat) (bound : Nat) (t : DbTables) : Prop :=
  ∀ row ∈ t.comments, height row.cid < bound ∧
    ∀ parentCid, row.parentCid = some parentCid → height parentCid < height row.cid

theorem Ranked.mono (h : Ranked height bound t) (hsub : ∀ row ∈ t'.comments, row ∈ t.comments) :
    Ranked height bound t' := fun row hrow => h row (hsub row hrow)

/-- With foreign keys, the post of a comment is above it. -/
structure Sturdy (foreignKeys : Bool) (height : Cid → Nat) (bound : Nat) (t : DbTables) : Prop where
  ranked : Ranked height bound t
  posts : foreignKeys = true → ∀ row ∈ t.comments, Descends t row.postCid row.cid

theorem Sturdy.removes {roots : List Cid} {records : List PurgedCommentTableRows}
    (h : Sturdy foreignKeys height bound t) (hremoves : Removes t t' roots records) :
    Sturdy foreignKeys height bound t' := by
  obtain ⟨⟨cids, hcids, rfl⟩, -⟩ := hremoves
  refine ⟨h.ranked.mono fun row hrow => (List.mem_filter.1 hrow).1, fun hkeys row hrow => ?_⟩
  obtain ⟨hold, hout⟩ := List.mem_filter.1 hrow
  have hclosed : ∀ {parent cid}, parent ∈ cids → Descends t parent cid → cid ∈ cids := by
    intro parent cid hparent hbelow
    obtain ⟨root, hroot, habove⟩ := (hcids parent).1 hparent
    exact (hcids cid).2 ⟨root, hroot, habove.trans hbelow⟩
  exact ((h.posts hkeys row hold).remove hclosed).resolve_left (by simpa using hout)

theorem Ranked.child (h : Ranked height bound t) {child : Cid}
    (hchild : ∃ row ∈ t.comments, row.parentCid = some cid ∧ row.cid = child) :
    height child < bound ∧ height cid < height child := by
  obtain ⟨row, hrow, hparent, rfl⟩ := hchild
  exact ⟨(h row hrow).1, (h row hrow).2 cid hparent⟩

theorem returns_getAllDescendantCids (hs : s.Undisturbed) (hranked : Ranked height bound s.tables)
    (hcid : height cid < bound) (hstack : bound < stack + height cid) :
    Returns (getAllDescendantCids stack cid) s := by
  induction stack generalizing cid s with
  | zero => omega
  | succ stack ih =>
    refine (returns_query hs _).bind fun children s₁ hchildren hs₁ => ?_
    obtain ⟨hmem, h₁⟩ := queryDirectChildren_eq_ok hchildren
    rw [← h₁] at hranked
    refine Returns.bind (returns_forEach (P := fun t _ => t.tables = s₁.tables) ?_ hs₁ rfl)
      fun below s₂ _ hs₂ => returns_pure hs₂ _
    intro done child rest hsplit t ht htables
    have hreply : ∃ row ∈ s₁.tables.comments, row.parentCid = some cid ∧ row.cid = child := by
      rw [h₁]
      exact (hmem child).1 (by simp [hsplit])
    obtain ⟨hchild, habove⟩ := hranked.child hreply
    rw [← htables] at hranked
    exact ⟨ih ht hranked hchild (by omega),
      fun cids t' h => (getAllDescendantCids_eq_ok h).1.trans htables⟩

theorem exists_parentChain (hranked : Ranked height bound t) (hstack : height cid < stack) :
    ∃ chain, t.parentChain stack cid = some chain := by
  induction stack generalizing cid with
  | zero => omega
  | succ stack ih =>
    rw [DbTables.parentChain]
    cases hrow : t.comment cid with
    | none => exact ⟨[], rfl⟩
    | some row =>
      obtain ⟨hmem, rfl⟩ := DbTables.comment_eq_some.1 hrow
      cases hparent : row.parentCid with
      | none => exact ⟨[row.cid], by simp [hparent]⟩
      | some parentCid =>
        have hlower := (hranked row hmem).2 parentCid hparent
        obtain ⟨chain, hchain⟩ := ih (show height parentCid < stack by omega)
        exact ⟨row.cid :: chain, by simp [hparent, hchain]⟩

theorem returns_queryAffected (hs : s.Undisturbed) (hranked : Ranked height bound s.tables)
    (hstack : bound ≤ stack) {row : CommentsTableRow} (hrow : row ∈ s.tables.comments)
    (hauthor : row.authorSignerAddress ≠ "") : Returns (queryAffected stack row.cid) s := by
  refine (returns_query hs _).bind fun comment s₁ hcomment hs₁ => ?_
  obtain ⟨rfl, h₁⟩ := queryComment_eq_ok hcomment
  rw [DbTables.comment_eq_some.2 ⟨hrow, rfl⟩]
  simp only [if_neg hauthor]
  refine (returns_query hs₁ _).bind fun votes s₂ hvotes hs₂ => ?_
  refine (returns_query hs₂ _).bind fun edits s₃ hedits hs₃ => ?_
  have h₃ : s₃.tables = s.tables := by rw [(query_eq_ok hedits).2, (query_eq_ok hvotes).2, h₁]
  refine Returns.bind ?_ fun ancestors s₄ _ hs₄ => returns_pure hs₄ _
  cases hparent : row.parentCid with
  | none => exact returns_pure hs₃ _
  | some parentCid =>
    have hlower := (hranked row hrow).2 parentCid hparent
    have hbound := (hranked row hrow).1
    obtain ⟨chain, hchain⟩ :=
      exists_parentChain hranked (show height parentCid < stack by omega)
    exact ⟨chain, s₃, query_of_undisturbed hs₃ (by rw [h₃, hchain]), hs₃⟩

/-- No row refers to the comment that is deleted with all that refers to it by itself. -/
theorem refersTo_remove (h : ∀ row ∈ t.comments, row.parentCid ≠ some cid ∧
    (row.postCid = cid → row.cid = cid)) : (t.remove [cid]).refersTo cid = false := by
  have hcomments : ∀ row ∈ t.comments, row.cid ≠ cid →
      ¬ row.parentCid = some cid ∧ ¬ row.postCid = cid := fun row hrow hne =>
    ⟨(h row hrow).1, fun heq => hne ((h row hrow).2 heq)⟩
  simpa [DbTables.refersTo, DbTables.remove] using hcomments

theorem returns_deleteComment (hs : s.Undisturbed) (hrefers : foreignKeys = true →
    ∀ row ∈ s.tables.comments, row.parentCid ≠ some cid ∧ (row.postCid = cid → row.cid = cid)) :
    Returns (deleteComment foreignKeys cid) s := by
  refine (returns_query hs _).bind fun row s₁ hrow hs₁ => ?_
  refine (returns_update hs₁ _).bind fun _ s₂ hvotes hs₂ => ?_
  refine (returns_update hs₂ _).bind fun _ s₃ hedits hs₃ => ?_
  refine (returns_update hs₃ _).bind fun _ s₄ haliases hs₄ => ?_
  refine (returns_query hs₄ _).bind fun place s₅ hplace hs₅ => ?_
  refine Returns.bind ?_ fun _ s₆ hupdate hs₆ => ?_
  · split
    · exact returns_update hs₅ _
    · exact returns_pure hs₅ _
  obtain ⟨hcomments, hremoved⟩ :=
    deleteReferences_eq_ok hrow hvotes hedits haliases hplace hupdate
  have hfree : (foreignKeys && (s₆.tables.comment cid).isSome &&
      (s₆.tables.deleteCommentRow cid).refersTo cid) = false := by
    rw [hremoved]
    cases hkeys : foreignKeys with
    | false => simp
    | true => simp [refersTo_remove (hrefers hkeys)]
  have hdeletes : Returns (deleteCommentRow foreignKeys cid) s₆ :=
    ⟨_, _, update_of_undisturbed hs₆ (by rw [hfree]; rfl), by exact hs₆⟩
  refine hdeletes.bind fun changes s₇ hdelete hs₇ => ?_
  split
  · rename_i hpos
    obtain ⟨_, hchanges, -⟩ := update_eq_ok hdelete
    rw [hfree] at hchanges
    cases hchanges
    rw [hcomments] at hpos
    obtain ⟨found, hfound, hcid⟩ := List.countP_pos_iff.1 hpos
    rw [(queryComment_eq_ok hrow).1,
      DbTables.comment_eq_some.2 ⟨hfound, by simpa using hcid⟩]
    exact returns_pure hs₇ _
  · exact returns_pure hs₇ _

theorem returns_runForEachCidBatch (hs : s.Undisturbed) (batches : Nat) (cids : List Cid) :
    Returns (runForEachCidBatch batches cids) s := by
  induction batches generalizing s cids with
  | zero => exact returns_pure hs _
  | succ batches ih =>
    cases cids with
    | nil => exact returns_pure hs _
    | cons cid cids => exact (returns_update hs _).bind fun _ s' _ hs' => ih hs' _

theorem returns_forceUpdates (hs : s.Undisturbed) (cids : List Cid) (affected : List Affected) :
    Returns (forceUpdates random cids affected) s := by
  refine Returns.bind (returns_forEach (P := fun _ _ => True)
    (fun _ _ _ _ t ht _ => ⟨returns_query ht _, fun _ _ _ => trivial⟩) hs trivial)
    fun _ s₁ _ hs₁ => ?_
  refine (returns_query hs₁ _).bind fun _ s₂ _ hs₂ => ?_
  exact returns_savepoint hs₂ fun s' hs' _ => returns_runForEachCidBatch hs' _ _

theorem returns_purgeBody {purgeChild : Cid → DbOp (List PurgedCommentTableRows)}
    {isNestedCall : Bool} (hs : s.Undisturbed) (hsturdy : Sturdy foreignKeys height bound s.tables)
    (hcid : height cid < bound) (hstack : bound < stack + height cid)
    (haffected : isNestedCall = false → ∀ s' : Session DbTables, s'.Undisturbed →
      s'.tables = s.tables → ∀ x, Descends s.tables cid x → Returns (queryAffected stack x) s')
    (hremoves : ∀ {child s' s'' records}, purgeChild child s' = (.ok records, s'') →
      Removes s'.tables s''.tables [child] records)
    (hchild : ∀ child, height child < bound → height cid < height child →
      ∀ s' : Session DbTables, s'.Undisturbed → Sturdy foreignKeys height bound s'.tables →
        Returns (purgeChild child) s') :
    Returns (purgeBody foreignKeys random stack purgeChild cid isNestedCall) s := by
  refine (returns_getAllDescendantCids hs hsturdy.ranked hcid hstack).bind
    fun cids s₁ hcids hs₁ => ?_
  obtain ⟨h₁, hmemCids⟩ := getAllDescendantCids_eq_ok hcids
  have haffectedReturns : Returns (if isNestedCall then Op.pure []
      else forEach (queryAffected stack) cids) s₁ := by
    cases isNestedCall with
    | true => exact returns_pure hs₁ _
    | false =>
      refine returns_forEach (P := fun t _ => t.tables = s.tables) ?_ hs₁ h₁
      intro done x rest hsplit t' ht' htables
      refine ⟨haffected rfl t' ht' htables x ((hmemCids x).1 (by simp [hsplit])),
        fun a t'' h => (queryAffected_eq_ok h).1.trans htables⟩
  refine haffectedReturns.bind fun affected s₂ haffected hs₂ => ?_
  have h₂ : s₂.tables = s.tables := by
    cases isNestedCall with
    | true => rw [← (pure_eq_ok.1 haffected).2, h₁]
    | false => exact (forEach_query_eq_ok (Q := Covers) queryAffected_eq_ok haffected).1.trans h₁
  refine (returns_query hs₂ _).bind fun children s₃ hchildren hs₃ => ?_
  obtain ⟨hmem, h₃⟩ := queryDirectChildren_eq_ok hchildren
  rw [h₂] at hmem h₃
  have hloop : Returns (forEach purgeChild children) s₃ := by
    refine returns_forEach
      (P := fun t' _ => Sturdy foreignKeys height bound t'.tables) ?_ hs₃ (by rw [h₃]; exact hsturdy)
    intro done child rest hsplit t' ht' hnow
    obtain ⟨hbound, habove⟩ := hsturdy.ranked.child ((hmem child).1 (by simp [hsplit]))
    exact ⟨hchild child hbound habove t' ht' hnow, fun records t'' h => hnow.removes (hremoves h)⟩
  refine hloop.bind fun below s₄ hbelow hs₄ => ?_
  have hleft := purgeBelow_eq_ok hremoves hbelow
  rw [h₃] at hleft
  have hrefers : foreignKeys = true → ∀ row ∈ s₄.tables.comments,
      row.parentCid ≠ some cid ∧ (row.postCid = cid → row.cid = cid) := by
    obtain ⟨⟨removed, hremoved, heq⟩, -⟩ := hleft
    intro hkeys row hrow
    rw [heq] at hrow
    obtain ⟨hold, hout⟩ := List.mem_filter.1 hrow
    have hkept : ∀ child ∈ children, ¬ Descends s.tables child row.cid := fun child hin hdown =>
      absurd ((hremoved row.cid).2 ⟨child, hin, hdown⟩) (by simpa using hout)
    refine ⟨fun hparent => hkept row.cid ((hmem _).2 ⟨row, hold, hparent, rfl⟩) .self,
      fun hpost => ?_⟩
    have hdown := hsturdy.posts hkeys row hold
    rw [hpost] at hdown
    rcases hdown.eq_or_below_child with heq | ⟨child, hin, hparent, hdown⟩
    · exact heq
    · exact absurd hdown (hkept child.cid ((hmem _).2 ⟨child, hin, hparent, rfl⟩))
  refine (returns_deleteComment hs₄ hrefers).bind fun purged s₅ _ hs₅ => ?_
  refine Returns.bind ?_ fun _ s₆ _ hs₆ => returns_pure hs₆ _
  split
  · exact returns_pure hs₅ _
  · exact returns_forceUpdates hs₅ _ _

theorem returns_purgeComment_nested (hs : s.Undisturbed)
    (hsturdy : Sturdy foreignKeys height bound s.tables) (hcid : height cid < bound)
    (hstack : bound + 1 < stack + height cid) :
    Returns (purgeComment foreignKeys random stack cid true) s := by
  induction stack generalizing cid s with
  | zero => omega
  | succ stack ih =>
    rw [purgeComment, if_pos rfl]
    exact returns_purgeBody hs hsturdy hcid (by omega) (by simp) purgeComment_nested_eq_ok
      fun child hbound habove s' hs' hsturdy' => ih hs' hsturdy' hbound (by omega)

theorem returns_transaction {α : Type} {op : DbOp α} (hs : s.Undisturbed) (hclosed : Closed s)
    (hin : Inside op) (h : ∀ s', s'.Undisturbed → s'.tables = s.tables → Returns op s') :
    Returns (transaction op) s := by
  obtain ⟨hdepth, hsnapshot⟩ := hclosed
  have hcreate : Returns createTransaction s := by
    have hbegin : (execBegin .sqliteError : DbOp Unit) s =
        (.ok (), { s with snapshot := some s.tables }) :=
      statement_of_undisturbed hs (by simp [hsnapshot])
    rw [Returns, createTransaction, if_pos hdepth, bind_of_ok hbegin]
    exact ⟨(), _, rfl, hs⟩
  refine hcreate.bind fun _ s₁ hcreated hs₁ => ?_
  obtain ⟨h₁, hdepth₁, hopened, -⟩ := createTransaction_eq_ok hcreated
  obtain ⟨a, s₂, hop, hs₂⟩ := h s₁ hs₁ h₁
  obtain ⟨hdepth₂, hsnapshot₂⟩ := hin.ok (hopened hdepth).2 hop
  have hone : s₂.depth = 1 := by omega
  have hcommit : (execCommit .sqliteError : DbOp Unit) { s₂ with depth := 0 } =
      (.ok (), { s₂ with depth := 0, snapshot := none }) :=
    statement_of_undisturbed hs₂ (by simp [hsnapshot₂])
  have hcommitted : commitTransaction s₂ = (.ok (), { s₂ with depth := 0, snapshot := none }) := by
    rw [commitTransaction, if_pos (by omega)]
    simp only [hone, Nat.sub_self, if_true]
    exact hcommit
  refine ⟨a, { s₂ with depth := 0, snapshot := none }, onError_eq_ok.2 ?_, hs₂⟩
  rw [bind_of_ok hop, bind_of_ok hcommitted]
  rfl

/-- A purge of a comment that is there ends, if the call stack is deep enough. -/
theorem returns_purgeComment (hs : s.Undisturbed) (hclosed : Closed s)
    (hsturdy : Sturdy foreignKeys height bound s.tables) (hstack : bound + 2 < stack)
    {row : CommentsTableRow} (hrow : row ∈ s.tables.comments)
    (hauthor : ∀ below ∈ s.tables.comments, Descends s.tables row.cid below.cid →
      below.authorSignerAddress ≠ "") :
    Returns (purgeComment foreignKeys random stack row.cid false) s := by
  cases stack with
  | zero => omega
  | succ stack =>
    have hbound := (hsturdy.ranked row hrow).1
    simp only [purgeComment, Bool.false_eq_true, if_false]
    refine returns_transaction hs hclosed (inside_purgeBody fun _ => inside_purgeComment) ?_
    intro s₁ hs₁ h₁
    rw [← h₁] at hsturdy
    refine returns_purgeBody hs₁ hsturdy hbound (by omega) ?_ purgeComment_nested_eq_ok ?_
    · intro _ s' hs' htables x hx
      rw [h₁] at hx htables
      obtain ⟨found, hfound, rfl⟩ : ∃ found ∈ s.tables.comments, found.cid = x := by
        cases hx with
        | self => exact ⟨row, hrow, rfl⟩
        | reply hfound => exact ⟨_, hfound, rfl⟩
      have hranked := hsturdy.ranked
      rw [h₁, ← htables] at hranked
      rw [← htables] at hfound
      refine returns_queryAffected hs' hranked (by omega) hfound (hauthor found ?_ hx)
      rw [← htables]
      exact hfound
    · intro child hchild habove s' hs' hsturdy'
      exact returns_purgeComment_nested hs' hsturdy' hchild (by omega)

end Returns

/-! ## The loop over the duplicates -/

section Loop

variable {t t' t'' : DbTables} {roots roots' : List Cid} {root cid : Cid} {s s' : Session DbTables}

theorem descends_of_comments_eq (heq : t.comments = t'.comments) (h : Descends t root cid) :
    Descends t' root cid := by
  induction h with
  | self => exact .self
  | reply hrow hparent _ ih => exact .reply (heq ▸ hrow) hparent ih

theorem descends_congr (heq : t.comments = t'.comments) :
    Descends t root cid ↔ Descends t' root cid :=
  ⟨descends_of_comments_eq heq, descends_of_comments_eq heq.symm⟩

/-- The comments that are left are those that are not below a root. -/
def Left (t t' : DbTables) (roots : List Cid) : Prop :=
  ∃ cids, (∀ cid, cid ∈ cids ↔ ∃ root ∈ roots, Descends t root cid) ∧
    t'.comments = (t.remove cids).comments

theorem Left.nil (t : DbTables) : Left t t [] := ⟨[], by simp, by rw [t.remove_nil]⟩

theorem Left.mem_iff (h : Left t t' roots) {row : CommentsTableRow} :
    row ∈ t'.comments ↔ row ∈ t.comments ∧ ¬ ∃ root ∈ roots, Descends t root row.cid := by
  obtain ⟨cids, hcids, heq⟩ := h
  rw [heq, ← hcids]
  simp [DbTables.remove]

/-- One more comment is purged. -/
theorem Left.snoc {records : List PurgedCommentTableRows} (h : Left t t' roots)
    (hpurged : Purged t' t'' cid records) : Left t t'' (roots ++ [cid]) := by
  obtain ⟨cids, hcids, heq⟩ := h
  obtain ⟨removed, flagged, rfl, hremoved⟩ := hpurged.tables
  refine ⟨cids ++ removed, fun x => ?_, ?_⟩
  · rw [List.mem_append, hremoved, descends_congr heq, exists_descends_append hcids]
    simp
  · rw [← t.remove_remove]
    simp only [DbTables.forceUpdate, DbTables.remove] at heq ⊢
    rw [heq]

/-- What is below a root is below an earlier one, or below it in what is left. -/
theorem Left.descends (h : Left t t' roots) (hbelow : Descends t root cid) :
    (∃ root ∈ roots, Descends t root cid) ∨ Descends t' root cid := by
  obtain ⟨cids, hcids, heq⟩ := h
  rw [descends_congr heq]
  have hsplit : ∃ root' ∈ roots ++ [root], Descends t root' cid := ⟨root, by simp, hbelow⟩
  rw [exists_descends_append hcids, hcids] at hsplit
  simpa using hsplit

theorem Left.of_descends (h : Left t t' roots) (hbelow : Descends t' root cid) :
    Descends t root cid := by
  obtain ⟨cids, -, heq⟩ := h
  exact ((descends_congr heq).1 hbelow).of_remove

/-- What the purges so far say about the database they began with. -/
structure PurgedSoFar (t t' : DbTables) (done : List Cid) : Prop where
  left : Left t t' done
  listed : done.Pairwise fun cid cid' => ¬ Descends t cid cid'
  has_author : ∀ cid ∈ done, ∀ row ∈ t.comments, Descends t cid row.cid →
    row.authorSignerAddress ≠ ""

theorem PurgedSoFar.snoc {done : List Cid} {records : List PurgedCommentTableRows}
    (h : PurgedSoFar t t' done) (hpurged : Purged t' t'' cid records) :
    PurgedSoFar t t'' (done ++ [cid]) := by
  refine ⟨h.left.snoc hpurged, ?_, ?_⟩
  · rw [List.pairwise_append]
    refine ⟨h.listed, List.pairwise_singleton _ _, fun earlier hearlier other hother hbelow => ?_⟩
    obtain rfl := List.mem_singleton.1 hother
    obtain ⟨row, hrow, rfl⟩ := hpurged.exists_comment
    exact (h.left.mem_iff.1 hrow).2 ⟨earlier, hearlier, hbelow⟩
  · intro root hroot row hrow hbelow
    rcases List.mem_append.1 hroot with hroot | hroot
    · exact h.has_author root hroot row hrow hbelow
    · obtain rfl := List.mem_singleton.1 hroot
      by_cases hearlier : ∃ earlier ∈ done, Descends t earlier row.cid
      · obtain ⟨earlier, hin, hdown⟩ := hearlier
        exact h.has_author earlier hin row hrow hdown
      · refine hpurged.has_author row (h.left.mem_iff.2 ⟨hrow, hearlier⟩) ?_
        exact (h.left.descends hbelow).resolve_left hearlier

end Loop

/-! ## The duplicates -/

section Rows

variable {t : DbTables} {row : CommentsTableRow} {signature : String}

theorem mem_duplicateComments : row ∈ t.duplicateComments ↔ row ∈ t.comments ∧
    row.signature ≠ none ∧
      ∃ older ∈ t.comments, older.signature = row.signature ∧ older.rowid < row.rowid := by
  simp [DbTables.duplicateComments, duplicateRows, isDuplicate, Option.isSome_iff_ne_none]

/-- The oldest comment with a signature is no duplicate. -/
theorem exists_oldest (hrow : row ∈ t.comments) (hsignature : row.signature = some signature) :
    ∃ oldest ∈ t.comments, oldest.signature = some signature ∧
      oldest ∉ t.duplicateComments := by
  induction hrowid : row.rowid using Nat.strong_induction_on generalizing row with
  | _ n ih =>
    by_cases hdup : row ∈ t.duplicateComments
    · obtain ⟨-, -, older, holder, hsame, hlt⟩ := mem_duplicateComments.1 hdup
      exact ih older.rowid (hrowid ▸ hlt) holder (hsame.trans hsignature) rfl
    · exact ⟨row, hrow, hsignature, hdup⟩

/-- Two comments with a signature that are no duplicates are one. -/
theorem eq_of_not_mem_duplicateComments {row' : CommentsTableRow} (hrow : row ∈ t.comments)
    (hrow' : row' ∈ t.comments) (hsome : row.signature = some signature)
    (hsome' : row'.signature = some signature) (hnot : row ∉ t.duplicateComments)
    (hnot' : row' ∉ t.duplicateComments) : row = row' := by
  refine List.inj_on_of_nodup_map t.nodup_rowids hrow hrow' ?_
  rcases Nat.lt_trichotomy row.rowid row'.rowid with hlt | heq | hlt
  · refine absurd (mem_duplicateComments.2 ⟨hrow', by simp [hsome'], row, hrow, ?_, hlt⟩) hnot'
    rw [hsome, hsome']
  · exact heq
  · refine absurd (mem_duplicateComments.2 ⟨hrow, by simp [hsome], row', hrow', ?_, hlt⟩) hnot
    rw [hsome, hsome']

end Rows

/-! ## The result -/

section Result

variable {random : Cid → Nat} {stack : Nat} {t : DbTables} {s s' : Session DbTables}

theorem purgeDuplicates_eq_ok {u : Unit} (hs : s.tables = t)
    (h : purgePublicationTablesWithDuplicateSignatures random stack s = (.ok u, s')) :
    PurgedSoFar t s'.tables (t.duplicateComments.map CommentsTableRow.cid) := by
  obtain ⟨cids, s₁, hcids, h⟩ := bind_eq_ok.1 h
  obtain ⟨hquery, h₁⟩ := query_eq_ok hcids
  cases hquery
  obtain ⟨records, s₂, hloop, h⟩ := bind_eq_ok.1 h
  obtain ⟨_, s₃, hedits, h⟩ := bind_eq_ok.1 h
  obtain ⟨_, s₄, hmods, h⟩ := bind_eq_ok.1 h
  have hs₁ : s₁.tables = t := by rw [h₁, hs]
  rw [hs] at hloop
  have hpurged := forEach_eq_ok (P := fun s done _ => PurgedSoFar t s.tables done)
    ⟨hs₁ ▸ Left.nil t, List.Pairwise.nil, nofun⟩
    (fun hdone hpurge => hdone.snoc (purgeComment_eq_ok hpurge)) hloop
  have hcomments : s'.tables.comments = s₂.tables.comments := by
    rw [delete_eq_ok h, delete_eq_ok hmods, delete_eq_ok hedits]
  obtain ⟨⟨removed, hremoved, heq⟩, hlisted, hauthor⟩ := hpurged
  exact ⟨⟨removed, hremoved, hcomments.trans heq⟩, hlisted, hauthor⟩

theorem Forest.left {t' : DbTables} {roots : List Cid} (hforest : Forest t) (h : Left t t' roots) :
    Forest t' := by
  obtain ⟨height, hheight⟩ := hforest.acyclic
  refine ⟨fun row hrow parentCid hparent => ?_, height, fun row hrow =>
    hheight row (h.mem_iff.1 hrow).1⟩
  obtain ⟨hold, hout⟩ := h.mem_iff.1 hrow
  obtain ⟨parent, hin, rfl⟩ := hforest.parent row hold parentCid hparent
  refine ⟨parent, h.mem_iff.2 ⟨hin, ?_⟩, rfl⟩
  rintro ⟨root, hroot, hbelow⟩
  exact hout ⟨root, hroot, .reply hold hparent hbelow⟩

/-- One comment for each signature is left if and only if what is below a duplicate is one. -/
theorem oneForEachSignature_iff {t' : DbTables}
    (h : Left t t' (t.duplicateComments.map CommentsTableRow.cid)) :
    OneForEachSignature t t' ↔ ∀ duplicate ∈ t.duplicateComments, ∀ row ∈ t.comments,
      Descends t duplicate.cid row.cid → row.signature ≠ none → row ∈ t.duplicateComments := by
  have hmem : ∀ row, row ∈ t'.comments ↔ row ∈ t.comments ∧
      ¬ ∃ duplicate ∈ t.duplicateComments, Descends t duplicate.cid row.cid := by
    intro row
    rw [h.mem_iff]
    simp
  have hleft : ∀ row ∈ t'.comments, row ∉ t.duplicateComments := fun row hrow hdup =>
    ((hmem row).1 hrow).2 ⟨row, hdup, .self⟩
  constructor
  · intro hone duplicate hdup row hrow hbelow hsigned
    by_contra hnot
    obtain ⟨signature, hsignature⟩ := Option.ne_none_iff_exists'.1 hsigned
    obtain ⟨kept, ⟨hkept, hsame⟩, -⟩ := hone signature ⟨row, hrow, hsignature⟩
    have heq := eq_of_not_mem_duplicateComments ((hmem kept).1 hkept).1 hrow hsame hsignature
      (hleft kept hkept) hnot
    subst heq
    exact ((hmem kept).1 hkept).2 ⟨duplicate, hdup, hbelow⟩
  · rintro hbelow signature ⟨row, hrow, hsignature⟩
    obtain ⟨oldest, holdest, hsame, hnot⟩ := exists_oldest hrow hsignature
    refine ⟨oldest, ⟨(hmem oldest).2 ⟨holdest, ?_⟩, hsame⟩, ?_⟩
    · rintro ⟨duplicate, hdup, hdown⟩
      exact hnot (hbelow duplicate hdup oldest holdest hdown (by simp [hsame]))
    · rintro other ⟨hother, hsame'⟩
      exact eq_of_not_mem_duplicateComments ((hmem other).1 hother).1 holdest hsame' hsame
        (hleft other hother) hnot

theorem Forest.ranked (hforest : Forest t) : ∃ height bound, Ranked height bound t := by
  obtain ⟨height, hheight⟩ := hforest.acyclic
  refine ⟨height, (t.comments.map fun row => height row.cid).sum + 1, fun row hrow =>
    ⟨?_, hheight row hrow⟩⟩
  exact Nat.lt_succ_of_le (List.le_sum_of_mem
    (List.mem_map_of_mem (f := fun row : CommentsTableRow => height row.cid) hrow))

variable (random) in
theorem returns_purgeDuplicates {height : Cid → Nat} {bound : Nat} (hranked : Ranked height bound t)
    (hstack : bound + 2 < stack) (happart : DuplicatesApart t) :
    Returns (purgePublicationTablesWithDuplicateSignatures random stack) { tables := t } := by
  have hs : ({ tables := t } : Session DbTables).Undisturbed := rfl
  refine (returns_query hs _).bind fun cids s₁ hcids hs₁ => ?_
  obtain ⟨hquery, h₁⟩ := query_eq_ok hcids
  cases hquery
  have hloop : Returns (forEach (fun cid => purgeComment false (random cid) stack cid false)
      (t.duplicateComments.map CommentsTableRow.cid)) s₁ := by
    refine returns_forEach (P := fun s done => Closed s ∧ PurgedSoFar t s.tables done) ?_ hs₁
      ⟨by rw [h₁]; exact ⟨rfl, rfl⟩, by rw [h₁]; exact ⟨Left.nil t, .nil, nofun⟩⟩
    rintro done cid rest hsplit s hs ⟨hclosed, hdone⟩
    obtain ⟨duplicate, hdup, rfl⟩ := List.mem_map.1
      (show cid ∈ t.duplicateComments.map CommentsTableRow.cid by simp [hsplit])
    have hlisted := happart.listed
    rw [hsplit, List.pairwise_append] at hlisted
    have hthere : duplicate ∈ s.tables.comments := by
      refine hdone.left.mem_iff.2 ⟨(mem_duplicateComments.1 hdup).1, ?_⟩
      rintro ⟨earlier, hearlier, hbelow⟩
      exact hlisted.2.2 earlier hearlier duplicate.cid (by simp) hbelow
    have hkept : ∀ row ∈ s.tables.comments, row ∈ t.comments := fun row hrow =>
      (hdone.left.mem_iff.1 hrow).1
    have hsturdy : Sturdy false height bound s.tables := ⟨hranked.mono hkept, fun h => by cases h⟩
    refine ⟨returns_purgeComment hs hclosed hsturdy hstack hthere ?_,
      fun records s' h => ⟨?_, hdone.snoc (purgeComment_eq_ok h)⟩⟩
    · intro below hbelow hdown
      exact happart.has_author duplicate hdup below (hkept below hbelow)
        (hdone.left.of_descends hdown)
    · have hend :=
        (purgeComment_closed false (random duplicate.cid) stack duplicate.cid hclosed).1
      rwa [h] at hend
  refine hloop.bind fun _ s₂ _ hs₂ => ?_
  refine (returns_update hs₂ _).bind fun _ s₃ _ hs₃ => ?_
  refine (returns_update hs₃ _).bind fun _ s₄ _ hs₄ => ?_
  exact returns_update hs₄ _

/-- **The purge of duplicates.**  On a forest, with a call stack that is deep enough, it does what
it is for if and only if the duplicates are apart. -/
theorem purgesDuplicates_iff (random : Cid → Nat) (t : DbTables) (hforest : Forest t) :
    ∃ depth, ∀ stack, depth ≤ stack →
      (PurgesDuplicates random stack t ↔ DuplicatesApart t) := by
  obtain ⟨height, bound, hranked⟩ := hforest.ranked
  refine ⟨bound + 3, fun stack hstack => ⟨?_, fun happart => ?_⟩⟩
  · rintro ⟨s', hrun, hone, -⟩
    have hpurged := purgeDuplicates_eq_ok rfl hrun
    refine ⟨hpurged.listed, (oneForEachSignature_iff hpurged.left).1 hone, ?_⟩
    intro duplicate hdup row hrow hbelow
    exact hpurged.has_author duplicate.cid (List.mem_map_of_mem hdup) row hrow hbelow
  · obtain ⟨u, s', hrun, -⟩ := returns_purgeDuplicates random hranked
      (show bound + 2 < stack by omega) happart
    have hpurged := purgeDuplicates_eq_ok rfl hrun
    exact ⟨s', hrun, (oneForEachSignature_iff hpurged.left).2 happart.below,
      hforest.left hpurged.left⟩

end Result

/-! ## Comments stored twice -/

/-- Tables with nothing but comments. -/
def commentsOnly (comments : List CommentsTableRow)
    (hcids : (comments.map CommentsTableRow.cid).Nodup)
    (hrowids : (comments.map CommentsTableRow.rowid).Nodup) : DbTables where
  comments := comments
  commentUpdates := []
  votes := []
  commentEdits := []
  commentModerations := []
  pseudonymityAliases := []
  nodup_comments := hcids
  nodup_rowids := hrowids

/-- A post that was stored twice. -/
def postTwice : DbTables :=
  commentsOnly [⟨1, "post", none, "post", "alice", some "s1"⟩,
    ⟨2, "copy", none, "copy", "alice", some "s1"⟩] (by decide) (by decide)

theorem purgesDuplicates_iff_postTwice :
    Forest postTwice ∧ ∃ depth, ∀ stack, depth ≤ stack →
      PurgesDuplicates (fun _ => 0) stack postTwice := by
  have hforest : Forest postTwice := ⟨by decide, fun _ => 0, by decide⟩
  have hdups : postTwice.duplicateComments = [⟨2, "copy", none, "copy", "alice", some "s1"⟩] := by
    decide
  have hposts : ∀ row ∈ postTwice.comments, row.parentCid = none ∧
      row.authorSignerAddress ≠ "" ∧ (row.cid = "copy" → row ∈ postTwice.duplicateComments) := by
    decide
  have hbelow : ∀ row, Descends postTwice "copy" row → row = "copy" := by
    intro row h
    cases h with
    | self => rfl
    | reply hrow hparent =>
      rw [(hposts _ hrow).1] at hparent
      cases hparent
  obtain ⟨depth, hdepth⟩ := purgesDuplicates_iff (fun _ => 0) postTwice hforest
  refine ⟨hforest, depth, fun stack hstack => (hdepth stack hstack).2 ⟨?_, ?_, ?_⟩⟩
  · rw [hdups]
    exact List.pairwise_singleton _ _
  · intro duplicate hdup row hrow hdown _
    rw [hdups, List.mem_singleton] at hdup
    rw [hdup] at hdown
    exact (hposts row hrow).2.2 (hbelow _ hdown)
  · intro duplicate _ row hrow _
    exact (hposts row hrow).2.1

/-- The copy has a reply. -/
def replyToCopy : DbTables :=
  commentsOnly [⟨1, "post", none, "post", "alice", some "s1"⟩,
    ⟨2, "copy", none, "copy", "alice", some "s1"⟩,
    ⟨3, "reply", some "copy", "copy", "bob", some "s2"⟩] (by decide) (by decide)

/-- The copy of a reply is below the copy of the post. -/
def copyBelowCopy : DbTables :=
  commentsOnly [⟨1, "post", none, "post", "alice", some "s1"⟩,
    ⟨2, "reply", some "post", "post", "bob", some "s2"⟩,
    ⟨3, "copy", none, "copy", "alice", some "s1"⟩,
    ⟨4, "copyOfReply", some "copy", "copy", "bob", some "s2"⟩] (by decide) (by decide)

/-- **The purge loses comments.**  A reply to a duplicate goes with it, and is not stored anywhere
else; and when a duplicate is below a duplicate, the migration throws. -/
theorem not_purgesDuplicates :
    Forest replyToCopy ∧ ¬ PurgesDuplicates (fun _ => 0) 100 replyToCopy ∧
    Forest copyBelowCopy ∧ ¬ PurgesDuplicates (fun _ => 0) 100 copyBelowCopy ∧
    (purgePublicationTablesWithDuplicateSignatures (fun _ => 0) 100
      { tables := copyBelowCopy }).1 = .error (.commentNotFound "copyOfReply") := by
  have hthrows : (purgePublicationTablesWithDuplicateSignatures (fun _ => 0) 100
      { tables := copyBelowCopy }).1 = .error (.commentNotFound "copyOfReply") := by
    decide +kernel
  have hlost : (purgePublicationTablesWithDuplicateSignatures (fun _ => 0) 100
      { tables := replyToCopy }).2.tables.comments =
        [⟨1, "post", none, "post", "alice", some "s1"⟩] := by decide +kernel
  refine ⟨⟨by decide, String.length, by decide⟩, ?_, ⟨by decide, String.length, by decide⟩, ?_,
    hthrows⟩
  · rintro ⟨s', hrun, hone, -⟩
    rw [hrun] at hlost
    obtain ⟨row, ⟨hrow, hsignature⟩, -⟩ := hone "s2" ⟨⟨3, "reply", some "copy", "copy", "bob",
      some "s2"⟩, by simp [replyToCopy, commentsOnly], rfl⟩
    rw [hlost, List.mem_singleton] at hrow
    rw [hrow] at hsignature
    exact absurd hsignature (by decide)
  · rintro ⟨s', hrun, -⟩
    rw [hrun] at hthrows
    cases hthrows

end Database
end Pkc

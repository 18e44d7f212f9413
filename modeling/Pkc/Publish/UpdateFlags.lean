import Pkc.Library.Runs
import Pkc.Publish.Tables

/-!
# Force-update flags across a publish cycle

A publish cycle asks which comments need a new CommentUpdate, calculates and writes them slice by
slice, and only when it builds the record does it mark them as published — by the list of cids it
collected on the way.  Between the calculation of a row and that mark the cycle awaits page
generation, signing and MFS writes, and in any of those awaits a purge, a `settings.pages` edit or
a change of the page-sort registry can clear the flag of a comment the cycle has already
calculated.

* `step` is the system: the cycle cut at its awaits, and everything else that writes the tables.
* `FlagsKept` is the wanted property: a flag that was reset after its row was calculated is still
  reset when the cycle is over.
* `Undisturbed` says of a `markPublished` step that none of the rows it is about to mark was reset
  in the meantime.  `flagsKept_run` proves the property for the runs whose marks are all
  undisturbed.
-/

set_option autoImplicit false

namespace Pkc
namespace UpdateFlags

open Runs

/-- Where the publish cycle stands. -/
inductive Cycle
  | idle
  /-- Between the flag query and the mark: the slices to come, the slice whose rows have been
  calculated but not written, and the cids whose rows this cycle has written. -/
  | calculating (slices : List (List Cid)) (slice : List Cid) (cidsUpdatedInThisCycle : List Cid)
  /-- Past the mark: building pages, signing and publishing the record. -/
  | publishing (cidsUpdatedInThisCycle : List Cid)
deriving DecidableEq, Repr

namespace Cycle

/-- The comments whose rows the running cycle has calculated. -/
def calculated : Cycle → List Cid
  | idle => []
  | calculating _ slice cidsUpdated => slice ++ cidsUpdated
  | publishing cidsUpdated => cidsUpdated

end Cycle

structure State where
  db : Tables
  cycle : Cycle
  /-- History variable: the comments whose flag was reset after the running cycle calculated their
  row.  It starts over with the next cycle and is read by no transition. -/
  resetSinceCalculated : List Cid
deriving DecidableEq, Repr

inductive Action
  /-- `queryCidsToBeUpdatedByDepth`; `flagged` is what the arms after the first one select. -/
  | queryCidsToBeUpdated (flagged : List Cid)
  /-- Read the rows of the next slice and calculate their CommentUpdates. -/
  | calculateSlice
  /-- Write the calculated slice; `approved` answers the moderation column of each row. -/
  | upsertSlice (approved : Cid → Option Bool)
  /-- `markCommentsAsPublishedToPostUpdates` with the cids collected by the cycle. -/
  | markPublished
  | cycleSucceeds
  | cycleFails
  | purgeComment (cid : Cid) (random : Nat)
  | applyPagesEdit (pagesChanged : Bool)
  | syncPageSortsWithRegistry (changed : Bool)
  | adjustPostUpdatesBuckets (outdated : List Cid)
  | storeComment (row : CommentRow)
  | storeVote (row : AuthoredRow)
  | storeCommentEdit (row : AuthoredRow)

namespace State

/-- The comments among `cids` that have a CommentUpdate row the running cycle has calculated. -/
def noteReset (s : State) (cids : List Cid) : List Cid :=
  s.resetSinceCalculated ++ cids.filter fun cid =>
    decide (cid ∈ s.cycle.calculated) && s.db.commentUpdates.any fun row => row.cid == cid

/-- Forget the history at the start of a cycle. -/
def startCycle (s : State) (flagged : List Cid) : State where
  db := s.db
  cycle := .calculating (Tables.slicesDeepestFirst (s.db.queryCommentsToBeUpdated flagged)) [] []
  resetSinceCalculated := []

/-- Clear the flag of the given comments. -/
def forceUpdate (s : State) (cids : List Cid) : State :=
  { s with
    db := s.db.forceUpdateOnAllCommentsWithCid cids
    resetSinceCalculated := s.noteReset cids }

/-- Clear every flag. -/
def forceUpdateAll (s : State) : State :=
  { s with
    db := s.db.forceUpdateOnAllComments
    resetSinceCalculated := s.noteReset (s.db.commentUpdates.map CommentUpdateRow.cid) }

/-- A purge that throws leaves the tables as they were. -/
def purge (s : State) (cid : Cid) (random : Nat) : State :=
  match s.db.purgeComment cid random with
  | none => s
  | some db =>
    let purged := { s with db := s.db.deleteRows (s.db.purgedCids cid) }
    { s with
      db := db
      resetSinceCalculated :=
        purged.noteReset (s.db.allCommentsToUpdate (s.db.purgedCids cid) random) }

end State

/-- The system.  `none` is an action that is not possible in the state. -/
def step (s : State) : Action → Option State
  | .queryCidsToBeUpdated flagged =>
    match s.cycle with
    | .idle => some (s.startCycle flagged)
    | _ => none
  | .calculateSlice =>
    match s.cycle with
    | .calculating (slice :: slices) [] updated =>
      -- a comment purged since the flag query ran is not part of the slice
      some { s with cycle := .calculating slices (slice.filter s.db.commentExistsInDb) updated }
    | _ => none
  | .upsertSlice approved =>
    match s.cycle with
    | .calculating slices slice updated =>
      if slice = [] then none
      else if slice.all s.db.commentExistsInDb then
        some { s with
          db := s.db.upsertCommentUpdates (slice.map fun cid => (cid, approved cid))
          cycle := .calculating slices [] (updated ++ slice) }
      else some { s with cycle := .idle } -- the foreign key rejects the slice and the cycle throws
    | _ => none
  | .markPublished =>
    match s.cycle with
    | .calculating [] [] updated =>
      some { s with
        db := s.db.markCommentsAsPublishedToPostUpdates updated
        cycle := .publishing updated }
    | _ => none
  | .cycleSucceeds =>
    match s.cycle with
    | .publishing _ => some { s with cycle := .idle }
    | .calculating [] [] [] => some { s with cycle := .idle } -- no reason to update
    | _ => none
  | .cycleFails =>
    match s.cycle with
    | .idle => none
    | _ => some { s with cycle := .idle }
  | .purgeComment cid random => some (s.purge cid random)
  | .applyPagesEdit pagesChanged => some (if pagesChanged then s.forceUpdateAll else s)
  | .syncPageSortsWithRegistry changed => some (if changed then s.forceUpdateAll else s)
  | .adjustPostUpdatesBuckets outdated => some (s.forceUpdate outdated)
  | .storeComment row =>
    if s.db.acceptsComment row then some { s with db := s.db.insertComment row } else none
  | .storeVote row => some { s with db := { s.db with votes := s.db.votes ++ [row] } }
  | .storeCommentEdit row =>
    some { s with db := { s.db with commentEdits := s.db.commentEdits ++ [row] } }

/-! ## The property and the condition -/

/-- Every flag reset since its row was calculated is still reset. -/
def FlagsKept (s : State) : Prop :=
  ∀ row ∈ s.db.commentUpdates, row.cid ∈ s.resetSinceCalculated →
    row.publishedToPostUpdatesMFS = false

instance (s : State) : Decidable (FlagsKept s) :=
  inferInstanceAs (Decidable (∀ row ∈ s.db.commentUpdates, _ → _))

/-- Every comment whose flag was reset since its row was calculated is selected by the flag query
of the next cycle, whatever the other arms of the query select. -/
def NextCycleRecalculates (s : State) : Prop :=
  ∀ comment ∈ s.db.comments, comment.cid ∈ s.resetSinceCalculated →
    comment.pendingApproval = false →
    ∀ flagged, comment ∈ s.db.queryCommentsToBeUpdated flagged

/-- A mark finds no row that was reset since the cycle calculated it; every other action is
unrestricted. -/
def Undisturbed (s : State) : Action → Prop
  | .markPublished =>
    ∀ row ∈ s.db.commentUpdates, row.cid ∈ s.cycle.calculated →
      row.cid ∉ s.resetSinceCalculated
  | _ => True

instance (s : State) (a : Action) : Decidable (Undisturbed s a) := by
  cases a <;> unfold Undisturbed <;> infer_instance

/-! ## What the table writes do to the flags -/

theorem mem_setPublishedFlag {db : Tables} {value : Bool} {cids : List Cid}
    {row : CommentUpdateRow} (h : row ∈ (db.setPublishedFlag value cids).commentUpdates) :
    (row.cid ∈ cids ∧ row.publishedToPostUpdatesMFS = value) ∨
      (row.cid ∉ cids ∧ row ∈ db.commentUpdates) := by
  obtain ⟨old, hold, rfl⟩ := List.mem_map.1 h
  by_cases hc : old.cid ∈ cids
  · left
    simp [hc]
  · right
    simp [hc, hold]

theorem mem_upsertCommentUpdates {db : Tables} {updates : List (Cid × Option Bool)}
    {row : CommentUpdateRow} (h : row ∈ (db.upsertCommentUpdates updates).commentUpdates) :
    row ∈ db.commentUpdates ∨ row.publishedToPostUpdatesMFS = false := by
  rcases List.mem_append.1 h with h | h
  · exact Or.inl (List.mem_filter.1 h).1
  · obtain ⟨update, -, rfl⟩ := List.mem_map.1 h
    exact Or.inr rfl

theorem mem_noteReset {s : State} {cids : List Cid} {cid : Cid} (h : cid ∈ s.noteReset cids) :
    cid ∈ s.resetSinceCalculated ∨ cid ∈ cids := by
  rcases List.mem_append.1 h with h | h
  · exact Or.inl h
  · exact Or.inr (List.mem_filter.1 h).1

/-- A row with a cleared flag is selected by the first arm of the flag query. -/
theorem neverPublished_of_flags {db : Tables} {comment : CommentRow}
    (h : ∀ row ∈ db.commentUpdates, row.cid = comment.cid →
      row.publishedToPostUpdatesMFS = false) : db.neverPublished comment = true := by
  unfold Tables.neverPublished
  split
  · rfl
  · rename_i row hfind
    have hrow := h row (List.mem_of_find?_eq_some hfind) (by simpa using List.find?_some hfind)
    simp [hrow]

/-! ## One step -/

theorem flagsKept_forceUpdate {s : State} (hs : FlagsKept s) (cids : List Cid) :
    FlagsKept (s.forceUpdate cids) := by
  intro row hrow hreset
  rcases mem_setPublishedFlag hrow with ⟨-, hflag⟩ | ⟨hout, hold⟩
  · exact hflag
  · rcases mem_noteReset hreset with hreset | hin
    · exact hs row hold hreset
    · exact absurd hin hout

theorem flagsKept_forceUpdateAll (s : State) : FlagsKept s.forceUpdateAll := by
  intro row hrow _
  obtain ⟨old, -, rfl⟩ := List.mem_map.1 hrow
  rfl

theorem flagsKept_purge {s : State} (hs : FlagsKept s) (cid : Cid) (random : Nat) :
    FlagsKept (s.purge cid random) := by
  unfold State.purge Tables.purgeComment
  split
  · exact hs
  · rename_i db hdb
    split at hdb
    · cases hdb
      have hdeleted : FlagsKept { s with db := s.db.deleteRows (s.db.purgedCids cid) } :=
        fun row hrow hreset => hs row (List.mem_filter.1 hrow).1 hreset
      exact flagsKept_forceUpdate hdeleted _
    · cases hdb

theorem flagsKept_mark {s : State} {updated : List Cid} (hs : FlagsKept s)
    (hcycle : s.cycle.calculated = updated) (hok : Undisturbed s .markPublished) :
    FlagsKept { s with
      db := s.db.markCommentsAsPublishedToPostUpdates updated
      cycle := .publishing updated } := by
  intro row hrow hreset
  obtain ⟨old, hold, rfl⟩ := List.mem_map.1 hrow
  by_cases hc : old.cid ∈ updated
  · refine absurd hreset ?_
    have hfresh := hok old hold (hcycle ▸ hc)
    simpa [hc] using hfresh
  · simp only [hc, if_false] at hreset ⊢
    exact hs old hold hreset

/-- **One step.**  Every action keeps the reset flags, a mark under the condition that it finds
none of its rows reset. -/
theorem flagsKept_step {s s' : State} {a : Action} (hs : FlagsKept s) (hok : Undisturbed s a)
    (hstep : step s a = some s') : FlagsKept s' := by
  cases a with
  | queryCidsToBeUpdated flagged =>
    simp only [step] at hstep
    split at hstep <;> cases hstep
    intro row _ hreset
    cases hreset
  | calculateSlice =>
    simp only [step] at hstep
    split at hstep <;> cases hstep
    exact hs
  | upsertSlice approved =>
    simp only [step] at hstep
    split at hstep
    · split at hstep
      · cases hstep
      · split at hstep <;> cases hstep
        · intro row hrow hreset
          rcases mem_upsertCommentUpdates hrow with hold | hflag
          · exact hs row hold hreset
          · exact hflag
        · exact hs
    · cases hstep
  | markPublished =>
    simp only [step] at hstep
    split at hstep
    · rename_i updated hcycle
      cases hstep
      exact flagsKept_mark hs (by rw [hcycle]; rfl) hok
    · cases hstep
  | cycleSucceeds =>
    simp only [step] at hstep
    split at hstep <;> cases hstep <;> exact hs
  | cycleFails =>
    simp only [step] at hstep
    split at hstep <;> cases hstep
    exact hs
  | purgeComment cid random =>
    cases hstep
    exact flagsKept_purge hs cid random
  | applyPagesEdit pagesChanged =>
    cases hstep
    cases pagesChanged
    · exact hs
    · exact flagsKept_forceUpdateAll s
  | syncPageSortsWithRegistry changed =>
    cases hstep
    cases changed
    · exact hs
    · exact flagsKept_forceUpdateAll s
  | adjustPostUpdatesBuckets outdated =>
    cases hstep
    exact flagsKept_forceUpdate hs outdated
  | storeComment row =>
    simp only [step] at hstep
    split at hstep <;> cases hstep
    exact hs
  | storeVote row =>
    cases hstep
    exact hs
  | storeCommentEdit row =>
    cases hstep
    exact hs

theorem nextCycleRecalculates {s : State} (hs : FlagsKept s) : NextCycleRecalculates s := by
  intro comment hcomment hreset hpending flagged
  refine List.mem_filter.2 ⟨hcomment, ?_⟩
  have hnever : s.db.neverPublished comment = true :=
    neverPublished_of_flags fun row hrow hcid => hs row hrow (hcid ▸ hreset)
  simp [hpending, hnever]

/-! ## Whole runs -/

/-- A state between two cycles, as after the start of the community. -/
def Fresh (s : State) : Prop := s.cycle = .idle ∧ s.resetSinceCalculated = []

theorem flagsKept_of_fresh {s : State} (hs : Fresh s) : FlagsKept s := by
  intro row _ hreset
  rw [hs.2] at hreset
  cases hreset

/-- **Force-update flags survive the cycle** in every run whose marks find no row that was reset
since the cycle calculated it: every state the run reaches keeps all the reset flags, and the next
cycle recalculates their comments. -/
theorem flagsKept_run {s t : State} {as : List Action} (hs : Fresh s)
    (hrun : Run step Undisturbed s as t) : FlagsKept t ∧ NextCycleRecalculates t := by
  have hkept : FlagsKept t :=
    hrun.invariant (fun _ _ _ hinv hok hstep => flagsKept_step hinv hok hstep)
      (flagsKept_of_fresh hs)
  exact ⟨hkept, nextCycleRecalculates hkept⟩

/-- One post, flagged for an update. -/
def onePost : State where
  db := {
    comments := [⟨"post", none, 0, "author", false⟩]
    commentUpdates := [⟨"post", none, false⟩]
    votes := []
    commentEdits := [] }
  cycle := .idle
  resetSinceCalculated := []

/-- A cycle over `onePost` with a pages edit before the mark. -/
def pagesEditBeforeMark : List Action :=
  [.queryCidsToBeUpdated [], .calculateSlice, .upsertSlice fun _ => none, .applyPagesEdit true,
    .markPublished, .cycleSucceeds]

/-- The same cycle with the pages edit after the mark. -/
def pagesEditAfterMark : List Action :=
  [.queryCidsToBeUpdated [], .calculateSlice, .upsertSlice fun _ => none, .markPublished,
    .applyPagesEdit true, .cycleSucceeds]

theorem flagsKept_run_pagesEditAfterMark :
    ∃ t, Run step Undisturbed onePost pagesEditAfterMark t ∧ FlagsKept t ∧
      NextCycleRecalculates t := by
  obtain ⟨t, ht⟩ : ∃ t, execOk step Undisturbed onePost pagesEditAfterMark = some t :=
    ⟨_, rfl⟩
  exact ⟨t, Run.of_execOk ht, flagsKept_run ⟨rfl, rfl⟩ (Run.of_execOk ht)⟩

/-- **A reset flag can be lost**: the mark at the end of the cycle sets the flag that the pages
edit cleared after the post's row was calculated, and the cycle ends with it set. -/
theorem flag_lost_by_mark :
    ¬ ∀ (s t : State) (as : List Action), Fresh s → Run step anyStep s as t → t.cycle = .idle →
      FlagsKept t := by
  intro h
  obtain ⟨t, ht⟩ : ∃ t, exec step onePost pagesEditBeforeMark = some t := ⟨_, rfl⟩
  have hkept := h onePost t pagesEditBeforeMark ⟨rfl, rfl⟩ (Run.of_exec ht)
  have hbad : exec step onePost pagesEditBeforeMark = some
      { db := { onePost.db with commentUpdates := [⟨"post", none, true⟩] }
        cycle := .idle
        resetSinceCalculated := ["post"] } := by decide
  rw [hbad, Option.some.injEq] at ht
  subst ht
  exact absurd (hkept rfl) (by decide)

end UpdateFlags
end Pkc

import Pkc.Library.Runs
import Pkc.Publish.Tables

/-!
# The update trigger and the publish loop

The publish loop sleeps until something asks for a new record.  The request is one Boolean,
`_communityUpdateTrigger`: `updateCommunityIpnsIfNeeded` consumes it immediately before it reads
the contents of the record, and whoever stores a publication sets it again.  A publication stored
while the record is on its way is not in the record, so its request must outlive the cycle.

* Votes, comment edits, moderations, community edits and comments pending approval set the trigger
  in the same turn as their write (`store_sets_trigger`), and nothing but the start of the next
  record clears it (`trigger_kept`).
* A comment stored without pending approval does not set it.  What wakes the loop for it is
  `calculateLatestUpdateTrigger`, the check the loop makes ten times a second: the cycle leaves
  `lastCommentCid` at what its record says, and the latest comment of the table is another one.
  `LatestMoved` is the invariant that carries this through the rest of the cycle.

`stored_publication_wakes_loop` puts the two together.
-/

set_option autoImplicit false

namespace Pkc
namespace UpdateTrigger

open Runs

/-- What the record in flight was built from. -/
structure RecordContents where
  latestPost : Option Cid
  latestComment : Option Cid
deriving DecidableEq, Repr

/-- Where the publish loop stands. -/
inductive Loop
  /-- Sleeping between two syncs; after a failed sync, with the trigger generation it waits to
  change. -/
  | waitUntilNextSync (lastSyncFailed : Bool) (triggerGenerationAfterFailure : Nat)
  /-- In `syncIpnsWithDb`, before the record: registries, CommentUpdates, the mod queue check. -/
  | updatingComments
  /-- Past the consumption of the trigger, until the record is published or the cycle fails. -/
  | publishing (contents : RecordContents)
deriving DecidableEq, Repr

structure State where
  db : Tables
  communityUpdateTrigger : Bool
  /-- Counts every request for a new record. -/
  updateTriggerGeneration : Nat
  updatedAt : Nat
  lastPostCid : Option Cid
  lastCommentCid : Option Cid
  /-- The ids of the edits no published record carries yet. -/
  pendingEditProps : List String
  blocksToRm : List Cid
  loop : Loop
deriving DecidableEq, Repr

/-- A publication that passed its challenges, with what its store function looks up. -/
inductive Publication
  | vote (row : AuthoredRow)
  /-- `disapproved` is the answer of `_queryIsCommentApproved`; `random` is the draw of the purge
  that follows when the author deletes a pending or disapproved comment. -/
  | commentEdit (row : AuthoredRow) (deleted disapproved : Bool) (random : Nat)
  /-- A moderation with `purged`; the blocks of the purged records join `_blocksToRm`. -/
  | purge (commentCid : Cid) (random : Nat) (blocks : List Cid)
  | approve (commentCid : Cid)
  /-- `approved: false`, alone or with other properties. -/
  | disapprove (commentCid : Cid) (onlyProperty : Bool) (random : Nat)
  /-- Any other moderation. -/
  | moderate (commentCid : Cid)
  | communityEdit (editId : String)
  /-- `maxPendingApprovalCount` is the community's setting, if it has one. -/
  | comment (row : CommentRow) (maxPendingApprovalCount : Option Nat) (random : Cid → Nat)

/-- A comment that is stored without pending approval. -/
def Publication.isApprovedComment : Publication → Bool
  | .comment row _ _ => !row.pendingApproval
  | _ => false

namespace State

/-- The setter of `_communityUpdateTrigger` for `true`. -/
def setTrigger (s : State) : State :=
  { s with
    communityUpdateTrigger := true
    updateTriggerGeneration := s.updateTriggerGeneration + 1 }

/-- A record is published every fifteen minutes at least. -/
def lastPublishTooOld (s : State) (now : Nat) : Bool := decide (s.updatedAt + 60 * 15 < now)

/-- Why the loop's wake-up check turns the trigger on. -/
def needsRecord (s : State) (now : Nat) : Bool :=
  s.lastPublishTooOld now || !s.pendingEditProps.isEmpty || !s.blocksToRm.isEmpty ||
    decide (s.lastCommentCid ≠ s.db.queryLatestCommentCid) ||
    decide (s.lastPostCid ≠ s.db.queryLatestPostCid)

def calculateLatestUpdateTrigger (s : State) (now : Nat) : State :=
  if !s.communityUpdateTrigger && s.needsRecord now then s.setTrigger else s

/-- Storing a publication, from the write to the trigger; `none` when the store function throws. -/
def storePublication (s : State) : Publication → Option State
  | .vote row =>
    some { s with db := { s.db with votes := s.db.votes ++ [row] } }.setTrigger
  | .commentEdit row deleted disapproved random =>
    match s.db.comments.find? fun comment => comment.cid == row.commentCid with
    | none => none
    | some comment =>
      let stored := { s.db with commentEdits := s.db.commentEdits ++ [row] }
      if deleted && (comment.pendingApproval || disapproved) then
        (stored.purgeComment row.commentCid random).map fun db => { s with db := db }.setTrigger
      else some { s with db := stored }.setTrigger
  | .purge commentCid random blocks =>
    (s.db.purgeComment commentCid random).map fun db =>
      { s with db := db, blocksToRm := s.blocksToRm ++ blocks }.setTrigger
  | .approve commentCid =>
    if s.db.commentExistsInDb commentCid then
      some { s with db := s.db.approvePendingComment commentCid }.setTrigger
    else none
  | .disapprove commentCid onlyProperty random =>
    if onlyProperty then
      (s.db.purgeComment commentCid random).map fun db => { s with db := db }.setTrigger
    else if s.db.commentExistsInDb commentCid then
      some { s with db := s.db.removeCommentFromPendingApproval commentCid }.setTrigger
    else none
  | .moderate commentCid => if s.db.commentExistsInDb commentCid then some s.setTrigger else none
  | .communityEdit editId =>
    some { s with pendingEditProps := s.pendingEditProps ++ [editId] }.setTrigger
  | .comment row maxPendingApprovalCount random =>
    if s.db.acceptsComment row then
      let stored := { s with db := s.db.insertAndEvict row maxPendingApprovalCount random }
      -- an approved comment wakes the loop through `lastCommentCid` instead
      some (if row.pendingApproval then stored.setTrigger else stored)
    else none

end State

inductive Action
  | storePublication (publication : Publication)
  /-- An edit by the owner, from its registration to the trigger. -/
  | edit (editId : String)
  /-- The loop's wake-up check. -/
  | checkInterval (now : Nat) (syncIntervalMsPassed : Bool)
  | syncWithRegistries (changed : Bool)
  | purgeDisapprovedComment (cid : Cid) (random : Nat)
  /-- Write the CommentUpdates of a slice. -/
  | upsertCommentUpdates (updates : List (Cid × Option Bool))
  | requireCommunityUpdateIfModQueueChanged (changed : Bool)
  | updateCommunityIpnsIfNeeded (now : Nat)
  /-- The record is published; `updatedAt`, the edits it carried and the blocks Kubo removed. -/
  | recordPublished (updatedAt : Nat) (publishedEdits : List String) (removedBlocks : List Cid)
  | cycleFails (now : Nat)

namespace State

/-- The sync loop goes back to sleep after an error: whatever the failed cycle tried to publish is
taken in before the generation is noted. -/
def waitAfterFailure (s : State) (now : Nat) : State :=
  let checked := s.calculateLatestUpdateTrigger now
  { checked with loop := .waitUntilNextSync true checked.updateTriggerGeneration }

def wokenByTrigger (s : State) (lastSyncFailed : Bool) (generation : Nat) : Bool :=
  if lastSyncFailed then decide (s.updateTriggerGeneration ≠ generation)
  else s.communityUpdateTrigger

end State

/-- The system.  `none` is an action that is not possible in the state. -/
def step (s : State) : Action → Option State
  | .storePublication publication => s.storePublication publication
  | .edit editId => some { s with pendingEditProps := s.pendingEditProps ++ [editId] }.setTrigger
  | .checkInterval now syncIntervalMsPassed =>
    match s.loop with
    | .waitUntilNextSync lastSyncFailed generation =>
      let checked := s.calculateLatestUpdateTrigger now
      some (if checked.wokenByTrigger lastSyncFailed generation || syncIntervalMsPassed then
        { checked with loop := .updatingComments } else checked)
    | _ => none
  | .syncWithRegistries changed =>
    match s.loop with
    | .updatingComments => some (if changed then s.setTrigger else s)
    | _ => none
  | .purgeDisapprovedComment cid random =>
    match s.loop with
    | .updatingComments => (s.db.purgeComment cid random).map fun db => { s with db := db }
    | _ => none
  | .upsertCommentUpdates updates =>
    match s.loop with
    | .updatingComments =>
      if (updates.map Prod.fst).all s.db.commentExistsInDb && !updates.isEmpty then
        some { s with db := s.db.upsertCommentUpdates updates }.setTrigger
      else none
    | _ => none
  | .requireCommunityUpdateIfModQueueChanged changed =>
    match s.loop with
    | .updatingComments => some (if changed then s.setTrigger else s)
    | _ => none
  | .updateCommunityIpnsIfNeeded now =>
    match s.loop with
    | .updatingComments =>
      let checked := s.calculateLatestUpdateTrigger now
      some (if checked.communityUpdateTrigger then
        { checked with
          communityUpdateTrigger := false
          loop := .publishing ⟨s.db.queryLatestPostCid, s.db.queryLatestCommentCid⟩ }
      else { checked with loop := .waitUntilNextSync false 0 })
    | _ => none
  | .recordPublished updatedAt publishedEdits removedBlocks =>
    match s.loop with
    | .publishing contents =>
      some { s with
        updatedAt := updatedAt
        lastPostCid := contents.latestPost
        lastCommentCid := contents.latestComment
        pendingEditProps := s.pendingEditProps.filter fun editId => editId ∉ publishedEdits
        blocksToRm := s.blocksToRm.filter fun cid => cid ∉ removedBlocks
        loop := .waitUntilNextSync false 0 }
    | _ => none
  | .cycleFails now =>
    match s.loop with
    | .publishing _ => some (s.setTrigger.waitAfterFailure now)
    | .updatingComments => some (s.waitAfterFailure now)
    | _ => none

/-! ## Storing a publication -/

/-- What a store function does: it writes and sets the trigger, or it inserts an approved comment
and leaves the rest alone. -/
inductive Stores (s : State) (p : Publication) (s' : State) : Prop
  | triggered (t : State) (hs' : s' = t.setTrigger) (hp : p.isApprovedComment = false)
      (hloop : t.loop = s.loop) (hlast : t.lastCommentCid = s.lastCommentCid)
      (hvalid : s.db.Valid → t.db.Valid)
  | approved {row : CommentRow} {limit : Option Nat} {random : Cid → Nat}
      (hp : p = .comment row limit random) (happroved : row.pendingApproval = false)
      (haccepts : s.db.acceptsComment row = true)
      (hs' : s' = { s with db := s.db.insertAndEvict row limit random })

theorem stores_of_storePublication {s s' : State} {p : Publication}
    (h : s.storePublication p = some s') : Stores s p s' := by
  cases p with
  | vote row =>
    cases h
    exact .triggered _ rfl rfl rfl rfl
      fun hdb => ⟨hdb.cids_nodup, hdb.updates_reference, hdb.parent_not_pending⟩
  | commentEdit row deleted disapproved random =>
    simp only [State.storePublication] at h
    split at h
    · cases h
    · have hstored : s.db.Valid →
          ({ s.db with commentEdits := s.db.commentEdits ++ [row] } : Tables).Valid :=
        fun hdb => ⟨hdb.cids_nodup, hdb.updates_reference, hdb.parent_not_pending⟩
      split at h
      · obtain ⟨db, hpurge, rfl⟩ := Option.map_eq_some_iff.1 h
        exact .triggered _ rfl rfl rfl rfl
          fun hdb => Tables.valid_purgeComment (hstored hdb) hpurge
      · cases h
        exact .triggered _ rfl rfl rfl rfl hstored
  | purge commentCid random blocks =>
    obtain ⟨db, hpurge, rfl⟩ := Option.map_eq_some_iff.1 h
    exact .triggered _ rfl rfl rfl rfl fun hdb => Tables.valid_purgeComment hdb hpurge
  | approve commentCid =>
    simp only [State.storePublication] at h
    split at h <;> cases h
    exact .triggered _ rfl rfl rfl rfl
      fun hdb => Tables.valid_removeCommentFromPendingApproval hdb commentCid
  | disapprove commentCid onlyProperty random =>
    simp only [State.storePublication] at h
    split at h
    · obtain ⟨db, hpurge, rfl⟩ := Option.map_eq_some_iff.1 h
      exact .triggered _ rfl rfl rfl rfl fun hdb => Tables.valid_purgeComment hdb hpurge
    · split at h <;> cases h
      exact .triggered _ rfl rfl rfl rfl
        fun hdb => Tables.valid_removeCommentFromPendingApproval hdb commentCid
  | moderate commentCid =>
    simp only [State.storePublication] at h
    split at h <;> cases h
    exact .triggered _ rfl rfl rfl rfl fun hdb => hdb
  | communityEdit editId =>
    cases h
    exact .triggered _ rfl rfl rfl rfl fun hdb => hdb
  | comment row limit random =>
    simp only [State.storePublication] at h
    split at h
    · rename_i haccepts
      cases h
      cases hpending : row.pendingApproval with
      | true =>
        refine .triggered { s with db := s.db.insertAndEvict row limit random } (if_pos rfl) ?_
          rfl rfl fun hdb => (Tables.evicts_insertAndEvict hdb haccepts limit random).valid
        rw [Publication.isApprovedComment, hpending]
        rfl
      | false => exact .approved rfl hpending haccepts (if_neg Bool.false_ne_true)
    · cases h

/-- What every store function leaves alone, and that none of them clears the trigger. -/
theorem storePublication_frame {s s' : State} {p : Publication}
    (h : s.storePublication p = some s') :
    s'.loop = s.loop ∧ s'.lastCommentCid = s.lastCommentCid ∧
      (s.communityUpdateTrigger = true → s'.communityUpdateTrigger = true) := by
  cases stores_of_storePublication h with
  | triggered t hs' _ hloop hlast _ =>
    subst hs'
    exact ⟨hloop, hlast, fun _ => rfl⟩
  | approved _ _ _ hs' =>
    subst hs'
    exact ⟨rfl, rfl, fun htrigger => htrigger⟩

/-- **Every store function but one sets the trigger** in the turn in which it writes. -/
theorem store_sets_trigger {s s' : State} {p : Publication} (h : s.storePublication p = some s')
    (hp : p.isApprovedComment = false) : s'.communityUpdateTrigger = true := by
  cases stores_of_storePublication h with
  | triggered t hs' _ _ _ _ =>
    subst hs'
    rfl
  | approved hcomment happroved _ _ =>
    rw [hcomment, Publication.isApprovedComment, happroved] at hp
    cases hp

theorem valid_storePublication {s s' : State} {p : Publication} (hdb : s.db.Valid)
    (h : s.storePublication p = some s') : s'.db.Valid := by
  cases stores_of_storePublication h with
  | triggered t hs' _ _ _ hvalid =>
    subst hs'
    exact hvalid hdb
  | approved _ _ haccepts hs' =>
    subst hs'
    exact (Tables.evicts_insertAndEvict hdb haccepts _ _).valid

/-- The comment a record names as its latest is stored and public. -/
def Listed (db : Tables) (latest : Option Cid) : Prop :=
  ∀ cid, latest = some cid →
    ∃ comment ∈ db.comments, comment.cid = cid ∧ comment.pendingApproval = false

/-- An approved comment becomes the latest comment of the table, and it is not the one any record
could have named before. -/
theorem storeApproved_spec {s s' : State} {p : Publication} (hdb : s.db.Valid)
    (hp : p.isApprovedComment = true) (h : s.storePublication p = some s')
    {latest : Option Cid} (hlisted : Listed s.db latest) :
    latest ≠ s'.db.queryLatestCommentCid ∧ Listed s'.db latest := by
  cases stores_of_storePublication h with
  | triggered _ _ hp' _ _ _ =>
    rw [hp] at hp'
    cases hp'
  | @approved row limit random _ happroved haccepts hs' =>
    subst hs'
    have hevicts := Tables.evicts_insertAndEvict hdb haccepts limit random
    have hlatest := Tables.queryLatestCommentCid_of_insert hdb haccepts happroved hevicts
    rw [hlatest]
    refine ⟨fun hsame => ?_, fun cid hcid => ?_⟩
    · obtain ⟨comment, hmem, hcid, -⟩ := hlisted _ hsame
      exact (Tables.acceptsComment_spec haccepts).1 (List.mem_map.2 ⟨comment, hmem, hcid⟩)
    · obtain ⟨comment, hmem, rfl, hnot⟩ := hlisted cid hcid
      obtain ⟨keep, hcomments, hkeep⟩ := hevicts.comments
      have hstays := List.mem_append_left [row] hmem
      refine ⟨comment, ?_, rfl, hnot⟩
      rw [hcomments]
      exact List.mem_filter.2 ⟨hstays, hkeep comment hstays hnot⟩

/-! ## Invariants of the loop -/

theorem calculateLatestUpdateTrigger_cases (s : State) (now : Nat) :
    s.calculateLatestUpdateTrigger now = s ∨ s.calculateLatestUpdateTrigger now = s.setTrigger := by
  unfold State.calculateLatestUpdateTrigger
  split
  · exact Or.inr rfl
  · exact Or.inl rfl

@[simp] theorem calculateLatestUpdateTrigger_db (s : State) (now : Nat) :
    (s.calculateLatestUpdateTrigger now).db = s.db := by
  rcases calculateLatestUpdateTrigger_cases s now with h | h
  · rw [h]
  · rw [h]
    rfl

@[simp] theorem calculateLatestUpdateTrigger_loop (s : State) (now : Nat) :
    (s.calculateLatestUpdateTrigger now).loop = s.loop := by
  rcases calculateLatestUpdateTrigger_cases s now with h | h
  · rw [h]
  · rw [h]
    rfl

@[simp] theorem calculateLatestUpdateTrigger_lastCommentCid (s : State) (now : Nat) :
    (s.calculateLatestUpdateTrigger now).lastCommentCid = s.lastCommentCid := by
  rcases calculateLatestUpdateTrigger_cases s now with h | h
  · rw [h]
  · rw [h]
    rfl

theorem calculateLatestUpdateTrigger_keeps {s : State} (h : s.communityUpdateTrigger = true)
    (now : Nat) : (s.calculateLatestUpdateTrigger now).communityUpdateTrigger = true := by
  rcases calculateLatestUpdateTrigger_cases s now with hs | hs <;> rw [hs]
  · exact h
  · rfl

/-- The wake-up check turns the trigger on when the latest comment is not the record's. -/
theorem calculateLatestUpdateTrigger_of_moved {s : State}
    (h : s.lastCommentCid ≠ s.db.queryLatestCommentCid) (now : Nat) :
    (s.calculateLatestUpdateTrigger now).communityUpdateTrigger = true := by
  unfold State.calculateLatestUpdateTrigger
  split
  · rfl
  · rename_i hnot
    have hneeds : s.needsRecord now = true := by
      simp [State.needsRecord, h]
    simpa [hneeds] using hnot

/-- What a step does. -/
inductive Effect (s : State) : Action → State → Prop
  | storePublication {p : Publication} {s' : State} (h : s.storePublication p = some s') :
      Effect s (.storePublication p) s'
  | edit (editId : String) :
      Effect s (.edit editId) { s with pendingEditProps := s.pendingEditProps ++ [editId] }.setTrigger
  | wakes {now : Nat} {passed lastSyncFailed : Bool} {generation : Nat}
      (hloop : s.loop = .waitUntilNextSync lastSyncFailed generation) :
      Effect s (.checkInterval now passed)
        { s.calculateLatestUpdateTrigger now with loop := .updatingComments }
  | sleeps {now : Nat} {passed lastSyncFailed : Bool} {generation : Nat}
      (hloop : s.loop = .waitUntilNextSync lastSyncFailed generation) :
      Effect s (.checkInterval now passed) (s.calculateLatestUpdateTrigger now)
  /-- The registries and the mod queue: both request a record if they changed. -/
  | checks {a : Action} (changed : Bool)
      (ha : a = .syncWithRegistries changed ∨ a = .requireCommunityUpdateIfModQueueChanged changed)
      (hloop : s.loop = .updatingComments) :
      Effect s a (if changed then s.setTrigger else s)
  | purges {cid : Cid} {random : Nat} {db : Tables} (hloop : s.loop = .updatingComments)
      (hpurge : s.db.purgeComment cid random = some db) :
      Effect s (.purgeDisapprovedComment cid random) { s with db := db }
  | upserts {updates : List (Cid × Option Bool)} (hloop : s.loop = .updatingComments)
      (hexist : ∀ cid ∈ updates.map Prod.fst, s.db.commentExistsInDb cid = true) :
      Effect s (.upsertCommentUpdates updates)
        { s with db := s.db.upsertCommentUpdates updates }.setTrigger
  | startsRecord {now : Nat} (hloop : s.loop = .updatingComments) :
      Effect s (.updateCommunityIpnsIfNeeded now)
        { s.calculateLatestUpdateTrigger now with
          communityUpdateTrigger := false
          loop := .publishing ⟨s.db.queryLatestPostCid, s.db.queryLatestCommentCid⟩ }
  | skipsRecord {now : Nat} (hloop : s.loop = .updatingComments) :
      Effect s (.updateCommunityIpnsIfNeeded now)
        { s.calculateLatestUpdateTrigger now with loop := .waitUntilNextSync false 0 }
  | publishes {updatedAt : Nat} {publishedEdits : List String} {removedBlocks : List Cid}
      {contents : RecordContents} (hloop : s.loop = .publishing contents) :
      Effect s (.recordPublished updatedAt publishedEdits removedBlocks)
        { s with
          updatedAt := updatedAt
          lastPostCid := contents.latestPost
          lastCommentCid := contents.latestComment
          pendingEditProps := s.pendingEditProps.filter fun editId => editId ∉ publishedEdits
          blocksToRm := s.blocksToRm.filter fun cid => cid ∉ removedBlocks
          loop := .waitUntilNextSync false 0 }
  | failsToPublish {now : Nat} {contents : RecordContents} (hloop : s.loop = .publishing contents) :
      Effect s (.cycleFails now) (s.setTrigger.waitAfterFailure now)
  | failsToUpdate {now : Nat} (hloop : s.loop = .updatingComments) :
      Effect s (.cycleFails now) (s.waitAfterFailure now)

theorem effect_of_step {s s' : State} {a : Action} (hstep : step s a = some s') :
    Effect s a s' := by
  cases a with
  | storePublication p => exact .storePublication hstep
  | edit editId => cases hstep; exact .edit editId
  | checkInterval now passed =>
    simp only [step] at hstep
    split at hstep <;> cases hstep
    rename_i hloop
    split
    · exact .wakes hloop
    · exact .sleeps hloop
  | syncWithRegistries changed =>
    simp only [step] at hstep
    split at hstep <;> cases hstep
    exact .checks changed (.inl rfl) ‹_›
  | purgeDisapprovedComment cid random =>
    simp only [step] at hstep
    split at hstep
    · obtain ⟨db, hpurge, rfl⟩ := Option.map_eq_some_iff.1 hstep
      exact .purges ‹_› hpurge
    · cases hstep
  | upsertCommentUpdates updates =>
    simp only [step] at hstep
    split at hstep
    · split at hstep <;> cases hstep
      rename_i hloop hexist
      rw [Bool.and_eq_true, List.all_eq_true] at hexist
      exact .upserts hloop hexist.1
    · cases hstep
  | requireCommunityUpdateIfModQueueChanged changed =>
    simp only [step] at hstep
    split at hstep <;> cases hstep
    exact .checks changed (.inr rfl) ‹_›
  | updateCommunityIpnsIfNeeded now =>
    simp only [step] at hstep
    split at hstep <;> cases hstep
    rename_i hloop
    split
    · exact .startsRecord hloop
    · exact .skipsRecord hloop
  | recordPublished updatedAt publishedEdits removedBlocks =>
    simp only [step] at hstep
    split at hstep <;> cases hstep
    exact .publishes ‹_›
  | cycleFails now =>
    simp only [step] at hstep
    split at hstep <;> cases hstep
    · exact .failsToPublish ‹_›
    · exact .failsToUpdate ‹_›

/-- The start of the next record, the one action that clears the trigger. -/
def keepsTrigger (_ : State) : Action → Prop
  | .updateCommunityIpnsIfNeeded _ => False
  | _ => True

/-- Nothing but the start of the next record clears the trigger. -/
theorem trigger_kept {s s' : State} {a : Action} (h : s.communityUpdateTrigger = true)
    (hok : keepsTrigger s a) (hstep : step s a = some s') : s'.communityUpdateTrigger = true := by
  cases effect_of_step hstep with
  | storePublication hstore => exact (storePublication_frame hstore).2.2 h
  | edit editId => rfl
  | wakes _ => exact calculateLatestUpdateTrigger_keeps h _
  | sleeps _ => exact calculateLatestUpdateTrigger_keeps h _
  | checks changed _ _ =>
    cases changed
    · exact h
    · rfl
  | purges _ _ => exact h
  | upserts _ _ => rfl
  | startsRecord _ => exact hok.elim
  | skipsRecord _ => exact hok.elim
  | publishes _ => exact h
  | failsToPublish _ => exact calculateLatestUpdateTrigger_keeps rfl _
  | failsToUpdate _ => exact calculateLatestUpdateTrigger_keeps h _

/-- The invariant of every reachable state: the tables are well formed, and the record in flight
names a stored comment as its latest unless the trigger is already set again. -/
structure Inv (s : State) : Prop where
  valid : s.db.Valid
  contents_listed : ∀ contents, s.loop = .publishing contents →
    s.communityUpdateTrigger = true ∨ Listed s.db contents.latestComment

theorem inv_of_not_publishing {s : State} (hdb : s.db.Valid)
    (h : ∀ contents, s.loop ≠ .publishing contents) : Inv s :=
  ⟨hdb, fun contents hloop => absurd hloop (h contents)⟩

/-- **One step** keeps the invariant. -/
theorem inv_step {s s' : State} {a : Action} (hs : Inv s) (hstep : step s a = some s') :
    Inv s' := by
  cases effect_of_step hstep with
  | @storePublication p _ hstore =>
    obtain ⟨hloop, -, hkeeps⟩ := storePublication_frame hstore
    refine ⟨valid_storePublication hs.valid hstore, fun contents hcontents => ?_⟩
    rw [hloop] at hcontents
    cases hp : p.isApprovedComment with
    | false => exact Or.inl (store_sets_trigger hstore hp)
    | true =>
      rcases hs.contents_listed contents hcontents with htrigger | hlisted
      · exact Or.inl (hkeeps htrigger)
      · exact Or.inr (storeApproved_spec hs.valid hp hstore hlisted).2
  | edit editId => exact ⟨hs.valid, fun _ _ => Or.inl rfl⟩
  | wakes _ => exact inv_of_not_publishing (by simpa using hs.valid) (by simp)
  | sleeps hloop => exact inv_of_not_publishing (by simpa using hs.valid) (by simp [hloop])
  | checks changed _ _ =>
    cases changed
    · exact hs
    · exact ⟨hs.valid, fun _ _ => Or.inl rfl⟩
  | purges hloop hpurge =>
    exact inv_of_not_publishing (Tables.valid_purgeComment hs.valid hpurge) (by simp [hloop])
  | upserts _ hexist =>
    exact ⟨Tables.valid_upsertCommentUpdates hs.valid hexist, fun _ _ => Or.inl rfl⟩
  | startsRecord _ =>
    refine ⟨by simpa using hs.valid, fun contents hcontents => Or.inr fun cid hcid => ?_⟩
    cases hcontents
    simpa using Tables.queryLatestCommentCid_mem hcid
  | skipsRecord _ => exact inv_of_not_publishing (by simpa using hs.valid) (by simp)
  | publishes _ => exact inv_of_not_publishing hs.valid (by simp)
  | failsToPublish _ =>
    exact inv_of_not_publishing
      (by simpa [State.waitAfterFailure, State.setTrigger] using hs.valid)
      (by simp [State.waitAfterFailure])
  | failsToUpdate _ =>
    exact inv_of_not_publishing (by simpa [State.waitAfterFailure] using hs.valid)
      (by simp [State.waitAfterFailure])

/-! ## From the store of a publication to the next cycle -/

/-- The latest comment the loop will have published when the running cycle is over. -/
def published (s : State) : Option Cid :=
  match s.loop with
  | .publishing contents => contents.latestComment
  | _ => s.lastCommentCid

/-- The trigger is set, or the latest comment is no longer the published one. -/
def LatestMoved (s : State) : Prop :=
  s.communityUpdateTrigger = true ∨
    (published s ≠ s.db.queryLatestCommentCid ∧ Listed s.db (published s))

/-- No action is taken in the sync that follows. -/
def beforeNextSync (s : State) (_ : Action) : Prop := s.loop ≠ .updatingComments

theorem published_congr {s s' : State} (hloop : s'.loop = s.loop)
    (hlast : s'.lastCommentCid = s.lastCommentCid) : published s' = published s := by
  rw [published, published, hloop, hlast]

theorem beforeNextSync_keepsTrigger {s s' : State} {a : Action} (hok : beforeNextSync s a)
    (hstep : step s a = some s') : keepsTrigger s a := by
  cases effect_of_step hstep with
  | startsRecord hloop => exact absurd hloop hok
  | skipsRecord hloop => exact absurd hloop hok
  | checks _ _ hloop => exact absurd hloop hok
  | _ => trivial

/-- Storing a publication while a record is in flight leaves a request behind. -/
theorem latestMoved_store {s s' : State} {p : Publication} (hs : Inv s)
    {contents : RecordContents} (hloop : s.loop = .publishing contents)
    (hstep : s.storePublication p = some s') : LatestMoved s' := by
  obtain ⟨hloop', hlast, hkeeps⟩ := storePublication_frame hstep
  cases hp : p.isApprovedComment with
  | false => exact Or.inl (store_sets_trigger hstep hp)
  | true =>
    rcases hs.contents_listed contents hloop with htrigger | hlisted
    · exact Or.inl (hkeeps htrigger)
    · right
      have hpublished : published s' = contents.latestComment := by
        rw [published_congr hloop' hlast, published, hloop]
      rw [hpublished]
      exact storeApproved_spec hs.valid hp hstep hlisted

/-- **One step** before the next sync keeps the request. -/
theorem latestMoved_step {s s' : State} {a : Action} (hs : Inv s) (hmoved : LatestMoved s)
    (hok : beforeNextSync s a) (hstep : step s a = some s') : LatestMoved s' := by
  rcases hmoved with htrigger | ⟨hne, hlisted⟩
  · exact Or.inl (trigger_kept htrigger (beforeNextSync_keepsTrigger hok hstep) hstep)
  · have hset : ∀ {f generation}, s.loop = .waitUntilNextSync f generation → ∀ now,
        (s.calculateLatestUpdateTrigger now).communityUpdateTrigger = true := by
      intro f generation hloop now
      have hmoved : s.lastCommentCid ≠ s.db.queryLatestCommentCid := by rwa [published, hloop] at hne
      exact calculateLatestUpdateTrigger_of_moved hmoved now
    cases effect_of_step hstep with
    | @storePublication p _ hstore =>
      obtain ⟨hloop, hlast, -⟩ := storePublication_frame hstore
      cases hp : p.isApprovedComment with
      | false => exact Or.inl (store_sets_trigger hstore hp)
      | true =>
        right
        rw [published_congr hloop hlast]
        exact storeApproved_spec hs.valid hp hstore hlisted
    | edit editId => exact Or.inl rfl
    | wakes hloop => exact Or.inl (hset hloop _)
    | sleeps hloop => exact Or.inl (hset hloop _)
    | publishes hloop =>
      rw [published, hloop] at hne hlisted
      exact Or.inr ⟨hne, hlisted⟩
    | failsToPublish _ => exact Or.inl (calculateLatestUpdateTrigger_keeps rfl _)
    -- the remaining actions belong to the next sync
    | checks _ _ hloop => exact absurd hloop hok
    | purges hloop _ => exact absurd hloop hok
    | upserts hloop _ => exact absurd hloop hok
    | startsRecord hloop => exact absurd hloop hok
    | skipsRecord hloop => exact absurd hloop hok
    | failsToUpdate hloop => exact absurd hloop hok

/-- The loop wakes up, and the cycle it then runs publishes a record: at the next check after a
successful cycle, and at the latest after the sync interval when the cycle failed. -/
def AnotherCycleRuns (s : State) : Prop :=
  ∀ (lastSyncFailed passed : Bool) (generation now : Nat),
    s.loop = .waitUntilNextSync lastSyncFailed generation →
    (lastSyncFailed = false ∨ passed = true) →
    ∃ s', step s (.checkInterval now passed) = some s' ∧ s'.loop = .updatingComments ∧
      ∀ (as : List Action) (u : State), Run step keepsTrigger s' as u →
        u.loop = .updatingComments →
        ∀ now', ∃ r contents, step u (.updateCommunityIpnsIfNeeded now') = some r ∧
          r.loop = .publishing contents

theorem anotherCycleRuns {s : State}
    (h : ∀ now, (s.calculateLatestUpdateTrigger now).communityUpdateTrigger = true) :
    AnotherCycleRuns s := by
  intro lastSyncFailed passed generation now hloop hwakes
  have hwoken : ((s.calculateLatestUpdateTrigger now).wokenByTrigger lastSyncFailed generation ||
      passed) = true := by
    rcases hwakes with rfl | rfl
    · simp [State.wokenByTrigger, h now]
    · exact Bool.or_true _
  refine ⟨{ s.calculateLatestUpdateTrigger now with loop := .updatingComments }, ?_, rfl, ?_⟩
  · simp only [step, hloop, hwoken, if_true]
  · intro as u hrun hu now'
    have htrigger : u.communityUpdateTrigger = true :=
      hrun.invariant (I := fun u => u.communityUpdateTrigger = true)
        (fun _ _ _ hset hok hstep => trigger_kept hset hok hstep) (h now)
    have hkept := calculateLatestUpdateTrigger_keeps htrigger now'
    simp only [step, hu, hkept, if_true]
    exact ⟨_, _, rfl, rfl⟩

/-- A started community, before its first sync. -/
def Started (s : State) : Prop := s.db.Valid ∧ s.loop = .updatingComments

theorem inv_of_started {s : State} (h : Started s) : Inv s :=
  inv_of_not_publishing h.1 (by simp [h.2])

theorem inv_run {s t : State} {as : List Action} (hs : Started s)
    (hrun : Run step anyStep s as t) : Inv t :=
  hrun.invariant (fun _ _ _ hinv _ hstep => inv_step hinv hstep) (inv_of_started hs)

/-- **A publication stored while a record is in flight gets another cycle.**  When the cycle is
over the trigger is set if the publication is anything but an approved comment, and in every case
the loop's wake-up check turns it on, so that the loop wakes up and publishes again. -/
theorem stored_publication_wakes_loop {s s₁ s₂ t : State} {before after : List Action}
    {contents : RecordContents} {p : Publication} {lastSyncFailed : Bool} {generation : Nat}
    (hs : Started s) (hbefore : Run step anyStep s before s₁)
    (hcycle : s₁.loop = .publishing contents)
    (hstore : step s₁ (.storePublication p) = some s₂)
    (hafter : Run step beforeNextSync s₂ after t)
    (hover : t.loop = .waitUntilNextSync lastSyncFailed generation) :
    (p.isApprovedComment = false → t.communityUpdateTrigger = true) ∧
      (∀ now, (t.calculateLatestUpdateTrigger now).communityUpdateTrigger = true) ∧
      AnotherCycleRuns t := by
  have hinv₁ : Inv s₁ := inv_run hs hbefore
  have hmoved : LatestMoved t :=
    (hafter.invariant (I := fun u => Inv u ∧ LatestMoved u)
      (fun _ _ _ hu hok hstep => ⟨inv_step hu.1 hstep, latestMoved_step hu.1 hu.2 hok hstep⟩)
      ⟨inv_step hinv₁ hstore, latestMoved_store hinv₁ hcycle hstore⟩).2
  have hwakes : ∀ now, (t.calculateLatestUpdateTrigger now).communityUpdateTrigger = true := by
    intro now
    rcases hmoved with htrigger | ⟨hne, -⟩
    · exact calculateLatestUpdateTrigger_keeps htrigger now
    · refine calculateLatestUpdateTrigger_of_moved ?_ now
      rwa [published, hover] at hne
  refine ⟨fun hp => ?_, hwakes, anotherCycleRuns hwakes⟩
  exact hafter.invariant (I := fun u => u.communityUpdateTrigger = true)
    (fun _ _ _ hset hok hstep =>
      trigger_kept hset (beforeNextSync_keepsTrigger hok hstep) hstep)
    (store_sets_trigger hstore hp)

/-! ## The two kinds of publication on one community -/

/-- A community with one published post, about to sync. -/
def onePost : State where
  db := {
    comments := [⟨"post", none, 0, "author", false⟩]
    commentUpdates := [⟨"post", none, true⟩]
    votes := []
    commentEdits := [] }
  communityUpdateTrigger := true
  updateTriggerGeneration := 1
  updatedAt := 100
  lastPostCid := some "post"
  lastCommentCid := some "post"
  pendingEditProps := []
  blocksToRm := []
  loop := .updatingComments

theorem onePost_started : Started onePost := by
  refine ⟨⟨by decide, by decide, by decide⟩, rfl⟩

/-- `onePost` with its record in flight. -/
def inFlight : State :=
  { onePost with
    communityUpdateTrigger := false
    loop := .publishing ⟨some "post", some "post"⟩ }

theorem onePost_run_inFlight :
    Run step anyStep onePost [.updateCommunityIpnsIfNeeded 100] inFlight :=
  Run.of_exec (by decide)

/-- A cycle that ends right after a publication was stored. -/
theorem run_recordPublished {s : State} (h : s.loop = inFlight.loop) :
    Run step beforeNextSync s [.recordPublished 101 [] []]
      { s with
        updatedAt := 101
        lastPostCid := some "post"
        lastCommentCid := some "post"
        pendingEditProps := s.pendingEditProps.filter fun editId => editId ∉ ([] : List String)
        blocksToRm := s.blocksToRm.filter fun cid => cid ∉ ([] : List Cid)
        loop := .waitUntilNextSync false 0 } := by
  have hloop : s.loop = .publishing ⟨some "post", some "post"⟩ := h
  refine .cons ?_ ?_ (.nil _)
  · rw [beforeNextSync, hloop]
    exact fun hsame => by cases hsame
  · simp only [step, hloop]

/-- A vote that lands while the record is in flight. -/
theorem stored_vote_wakes_loop :
    ∃ t : State, t.loop = .waitUntilNextSync false 0 ∧ t.communityUpdateTrigger = true ∧
      AnotherCycleRuns t := by
  obtain ⟨s₂, hstore⟩ : ∃ s₂, inFlight.storePublication (.vote ⟨"post", "voter"⟩) = some s₂ :=
    ⟨_, rfl⟩
  have hloop : s₂.loop = inFlight.loop := (storePublication_frame hstore).1
  obtain ⟨htrigger, -, hcycles⟩ := stored_publication_wakes_loop
    (p := .vote ⟨"post", "voter"⟩) onePost_started onePost_run_inFlight rfl hstore
    (run_recordPublished hloop) rfl
  exact ⟨_, rfl, htrigger rfl, hcycles⟩

/-- **An approved comment does not leave the trigger set**: stored while the record is in flight,
it ends the cycle with the trigger as the cycle consumed it. -/
theorem approved_comment_leaves_trigger_unset :
    ¬ ∀ (s s₁ s₂ t : State) (before after : List Action) (contents : RecordContents)
        (p : Publication) (lastSyncFailed : Bool) (generation : Nat),
      Started s → Run step anyStep s before s₁ → s₁.loop = .publishing contents →
      step s₁ (.storePublication p) = some s₂ → Run step beforeNextSync s₂ after t →
      t.loop = .waitUntilNextSync lastSyncFailed generation →
      t.communityUpdateTrigger = true := by
  intro h
  obtain ⟨s₂, hstore⟩ : ∃ s₂, inFlight.storePublication
      (.comment ⟨"reply", some "post", 1, "replier", false⟩ none fun _ => 0) = some s₂ := ⟨_, rfl⟩
  have hloop : s₂.loop = inFlight.loop := (storePublication_frame hstore).1
  have htrue :=
    h _ _ _ _ _ _ _ (.comment ⟨"reply", some "post", 1, "replier", false⟩ none fun _ => 0) _ _
      onePost_started onePost_run_inFlight rfl hstore (run_recordPublished hloop) rfl
  cases hstore
  cases htrue

end UpdateTrigger
end Pkc

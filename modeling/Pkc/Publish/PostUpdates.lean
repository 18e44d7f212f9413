import Pkc.Library.Runs
import Pkc.Library.Tasks
import Pkc.Publish.MfsPaths

/-!
# The postUpdates tree

A publish cycle writes the update of each post it recalculates into the MFS tree of the community.
Posts are purged meanwhile, and what is to be removed from the tree is kept as paths in
`_mfsPathsToRemove`, until a `files.rm` has removed them.

* `step` is what a cycle, a purge or a removal does up to its next `await`, in any order; the posts
  of a slice are calculated at once.  Comments that are no posts have no files, and are left out.
* `TreeOk` is the invariant: a file is that of a stored bucket, or it is queued, or a cycle has just
  written it and will look whether its post is still there; what is queued is stale.
* `Sound` is the condition under which a step keeps it.
-/

set_option autoImplicit false

namespace Pkc
namespace PostUpdates

open Runs Tasks

/-! ## The state -/

/-- What the table of the CommentUpdates says about the file of a post. -/
structure CommentUpdatesRow where
  postUpdatesBucket : Nat
  publishedToPostUpdatesMFS : Bool
deriving DecidableEq

/-- A call of `rmUnneededMfsPaths`: the paths it was called with, and those not removed yet. -/
structure Removal where
  toDeleteMfsPaths : List String
  left : List String
  left_subset : ∀ path ∈ left, path ∈ toDeleteMfsPaths

/-- Where the publish cycle is. -/
inductive Control (R : Type)
  /-- There is none; whether the last one has completed. -/
  | idle (completed : Bool)
  /-- Between two slices. -/
  | slices
  | calculating
  /-- A slice is upserted, and `_mfsPathsToRemove` is drained before it is written. -/
  | draining (r : R)
  | writing
  /-- The files of posts that were purged during the writes are removed. -/
  | rechecking (r : R)
  /-- After the last slice. -/
  | finalDraining (r : R)
deriving DecidableEq

/-- The posts of a cycle, by how far it has got with them. -/
structure Cycle (R : Type) where
  control : Control R := .idle false
  rest : List PostCid := []
  /-- The posts of the slice that are not calculated yet, with their stored buckets. -/
  todo : List (PostCid × Option Nat) := []
  calculated : List Entry := []
  /-- Upserted, and not written yet. -/
  live : List Entry := []
  written : List Entry := []
  cidsUpdatedInThisCycle : List PostCid := []

structure State (R : Type) where
  address : String
  /-- The posts in the table of the comments. -/
  cids : List PostCid := []
  commentUpdates : PostCid → Option CommentUpdatesRow := fun _ => none
  files : List Entry := []
  mfsPathsToRemove : List String := []
  removals : R → Option Removal := fun _ => none
  cycle : Cycle R := {}

inductive Event (R : Type)
  | store (cid : PostCid)
  /-- Posts are deleted, and the updates of others are to be calculated again. -/
  | purge (purged : List PostCid) (forced : PostCid → Bool)
  /-- A purge calls `rmUnneededMfsPaths`. -/
  | rm (r : R)
  /-- `files.rm` removes one of its paths. -/
  | rmPath (r : R) (path : String)
  | rmResolves (r : R)
  /-- It is rejected with an error that says "file does not exist". -/
  | rmFindsNone (r : R)
  /-- It is rejected with another error. -/
  | rmRejects (r : R)
  /-- A cycle begins, with the flagged posts. -/
  | begin (flagged : PostCid → Bool)
  | slice (size : Nat)
  | calculate (cid : PostCid) (storedBucket : Option Nat) (bucket : Nat)
  | upsert (r : R)
  | write (e : Entry)
  | recheck (r : R)
  | finish (r : R)
  | throws

section Step

variable {R : Type} [DecidableEq R]

def State.withControl (s : State R) (control : Control R) : State R :=
  { s with cycle := { s.cycle with control := control } }

/-- `addAllCidsUnderPurgedCommentToBeRemoved` -/
def State.purge (s : State R) (purged : List PostCid) (forced : PostCid → Bool) : State R :=
  { s with
    cids := s.cids.filter fun cid => cid ∉ purged
    commentUpdates := fun cid =>
      if cid ∈ purged then none
      else (s.commentUpdates cid).map fun row =>
        { row with publishedToPostUpdatesMFS := row.publishedToPostUpdatesMFS && !forced cid }
    mfsPathsToRemove := s.mfsPathsToRemove ∪
      purged.filterMap fun cid =>
        (s.commentUpdates cid).map fun row => localMfsPath s.address (row.postUpdatesBucket, cid) }

/-- `files.rm` is called with what is queued. -/
def State.startRm (s : State R) (r : R) : State R :=
  { s with
    removals := Function.update s.removals r
      (some ⟨s.mfsPathsToRemove, s.mfsPathsToRemove, fun _ h => h⟩) }

/-- The cycle awaits `rmUnneededMfsPaths`, which returns at once if nothing is queued. -/
def State.awaitRm (s : State R) (r : R) (waiting : Control R) (next : State R → State R) :
    Option (State R) :=
  if s.mfsPathsToRemove = [] then some (next s)
  else if (s.removals r).isSome then none
  else some ((s.startRm r).withControl waiting)

def Removal.without (removal : Removal) (path : String) : Removal where
  toDeleteMfsPaths := removal.toDeleteMfsPaths
  left := removal.left.filter fun other => other ≠ path
  left_subset other h := removal.left_subset other (List.mem_of_mem_filter h)

def State.rmPath (s : State R) (r : R) (removal : Removal) (path : String) : State R :=
  { s with
    files := s.files.filter fun e => ¬ Removes s.address path e
    removals := Function.update s.removals r (some (removal.without path)) }

/-- `markCommentsAsPublishedToPostUpdates`, and the end of the cycle. -/
def State.complete (s : State R) : State R :=
  { s with
    commentUpdates := fun cid =>
      (s.commentUpdates cid).map fun row =>
        { row with
          publishedToPostUpdatesMFS :=
            row.publishedToPostUpdatesMFS || decide (cid ∈ s.cycle.cidsUpdatedInThisCycle) }
    cycle := { control := .idle true } }

/-- A removal is over, and what it was called with no longer queued. -/
def State.dequeue (s : State R) (r : R) (removal : Removal) : State R :=
  { s with
    mfsPathsToRemove := s.mfsPathsToRemove.filter fun path => path ∉ removal.toDeleteMfsPaths
    removals := Function.update s.removals r none }

/-- The cycle goes on when the removal it awaits is over. -/
def State.afterRm (s : State R) (r : R) : State R :=
  match s.cycle.control with
  | .draining r' => if r' = r then s.withControl .writing else s
  | .rechecking r' => if r' = r then s.withControl .slices else s
  | .finalDraining r' => if r' = r then s.complete else s
  | _ => s

/-- A cycle that throws ends. -/
def State.abandon (s : State R) : State R := { s with cycle := {} }

/-- The error of a removal is thrown into the cycle, if that awaits it. -/
def State.afterRejectedRm (s : State R) (r : R) : State R :=
  match s.cycle.control with
  | .draining r' | .rechecking r' | .finalDraining r' => if r' = r then s.abandon else s
  | _ => s

/-- A comment with no update, or one that is not published, is flagged in any case. -/
def State.beginCycle (s : State R) (flagged : PostCid → Bool) : State R :=
  { s with
    cycle :=
      { control := .slices
        rest := s.cids.filter fun cid =>
          flagged cid || !(s.commentUpdates cid).any fun row => row.publishedToPostUpdatesMFS } }

/-- The posts of the next slice that are still there, with their stored buckets. -/
def State.slice (s : State R) (size : Nat) : State R :=
  let todo := (s.cycle.rest.take size).filter fun cid => cid ∈ s.cids
  { s with
    cycle :=
      { s.cycle with
        control := if todo = [] then .slices else .calculating
        rest := s.cycle.rest.drop size
        todo := todo.map fun cid =>
          (cid, (s.commentUpdates cid).map CommentUpdatesRow.postUpdatesBucket) } }

/-- `calculateNewCommentUpdate` -/
def State.calculate (s : State R) (cid : PostCid) (storedBucket : Option Nat) (bucket : Nat) :
    State R :=
  { s with
    mfsPathsToRemove := s.mfsPathsToRemove ∪
      ((storedBucket.filter fun stored => stored ≠ bucket).map fun stored =>
        oldPostUpdates s.address (stored, cid)).toList
    cycle :=
      { s.cycle with
        todo := s.cycle.todo.erase (cid, storedBucket)
        calculated := (bucket, cid) :: s.cycle.calculated } }

/-- `upsertCommentUpdates` -/
def State.upsert (s : State R) : State R :=
  { s with
    commentUpdates := fun cid =>
      match s.cycle.calculated.find? fun e => e.2 = cid with
      | some e => some ⟨e.1, false⟩
      | none => s.commentUpdates cid
    cycle := { s.cycle with calculated := [], live := s.cycle.calculated } }

def State.write (s : State R) (e : Entry) : State R :=
  { s with
    files := e :: s.files
    cycle := { s.cycle with live := s.cycle.live.erase e, written := e :: s.cycle.written } }

def State.rowsPurgedDuringWrites (s : State R) : List Entry :=
  s.cycle.written.filter fun e => e.2 ∉ s.cids

def State.recheck (s : State R) : State R :=
  { s with
    mfsPathsToRemove :=
      s.mfsPathsToRemove ∪ s.rowsPurgedDuringWrites.map (localMfsPath s.address)
    cycle :=
      { s.cycle with
        written := []
        cidsUpdatedInThisCycle :=
          s.cycle.written.map Prod.snd ++ s.cycle.cidsUpdatedInThisCycle } }

def step (s : State R) : Event R → Option (State R)
  | .store cid => if cid ∈ s.cids then none else some { s with cids := cid :: s.cids }
  | .purge purged forced => some (s.purge purged forced)
  | .rm r => if s.mfsPathsToRemove = [] ∨ (s.removals r).isSome then none else some (s.startRm r)
  | .rmPath r path =>
    (s.removals r).bind fun removal =>
      if path ∈ removal.left then some (s.rmPath r removal path) else none
  | .rmResolves r =>
    (s.removals r).bind fun removal =>
      if removal.left = [] then some ((s.dequeue r removal).afterRm r) else none
  | .rmFindsNone r =>
    (s.removals r).bind fun removal =>
      if removal.toDeleteMfsPaths.any fun path => s.files.all fun e => ¬ Removes s.address path e then
        some ((s.dequeue r removal).afterRm r)
      else none
  | .rmRejects r =>
    (s.removals r).bind fun _ =>
      some (State.afterRejectedRm { s with removals := Function.update s.removals r none } r)
  | .begin flagged =>
    match s.cycle.control with
    | .idle _ => some (s.beginCycle flagged)
    | _ => none
  | .slice size =>
    match s.cycle.control with
    | .slices => some (s.slice size)
    | _ => none
  | .calculate cid storedBucket bucket =>
    match s.cycle.control with
    | .calculating =>
      -- time passes, and the bucket of a post only grows
      if (cid, storedBucket) ∈ s.cycle.todo ∧ storedBucket.all fun stored => stored ≤ bucket then
        some (s.calculate cid storedBucket bucket)
      else none
    | _ => none
  | .upsert r =>
    match s.cycle.control with
    | .calculating =>
      -- a row of a comment that is gone violates a foreign key
      if s.cycle.todo = [] ∧ ∀ e ∈ s.cycle.calculated, e.2 ∈ s.cids then
        s.upsert.awaitRm r (.draining r) fun s => s.withControl .writing
      else none
    | _ => none
  | .write e =>
    match s.cycle.control with
    | .writing => if e ∈ s.cycle.live then some (s.write e) else none
    | _ => none
  | .recheck r =>
    match s.cycle.control with
    | .writing =>
      if s.cycle.live ≠ [] then none
      else if s.rowsPurgedDuringWrites = [] then some (s.recheck.withControl .slices)
      else s.recheck.awaitRm r (.rechecking r) fun s => s.withControl .slices
    | _ => none
  | .finish r =>
    match s.cycle.control with
    | .slices =>
      if s.cycle.rest = [] then s.awaitRm r (.finalDraining r) State.complete else none
    | _ => none
  | .throws =>
    match s.cycle.control with
    | .slices | .calculating => some s.abandon
    | _ => none

end Step

/-! ## The invariant -/

section Invariant

variable {R : Type}

/-- The bucket of the entry is the stored one of its post. -/
def State.Stored (s : State R) (e : Entry) : Prop :=
  ∃ row, s.commentUpdates e.2 = some row ∧ row.postUpdatesBucket = e.1

def State.Queued (s : State R) (e : Entry) : Prop :=
  ∃ path ∈ s.mfsPathsToRemove, Names s.address path e

/-- The cycle has calculated an update of the post for another bucket than the stored one. -/
def State.Moving (s : State R) (cid : PostCid) : Prop :=
  ∃ bucket row, (bucket, cid) ∈ s.cycle.calculated ∧ s.commentUpdates cid = some row ∧
    row.postUpdatesBucket < bucket

/-- The post of the entry is gone, or has left its bucket, or is about to. -/
def State.StaleEntry (s : State R) (e : Entry) : Prop :=
  e.2 ∈ s.cids → ∃ row, s.commentUpdates e.2 = some row ∧
    (e.1 < row.postUpdatesBucket ∨ e.1 = row.postUpdatesBucket ∧ s.Moving e.2)

/-- The path is one of a stale entry of the community's own tree. -/
def State.Stale (s : State R) (path : String) : Prop :=
  ∃ e, Names s.address path e ∧ s.StaleEntry e

/-- The posts that a cycle has to do with, as often as it has them. -/
def Cycle.count (c : Cycle R) (cid : PostCid) : Nat :=
  c.rest.count cid + (c.todo.map Prod.fst).count cid + (c.calculated.map Prod.snd).count cid +
    (c.live.map Prod.snd).count cid + (c.written.map Prod.snd).count cid +
      c.cidsUpdatedInThisCycle.count cid

/-- The lists that are empty where the cycle is. -/
def Cycle.Shape (c : Cycle R) : Prop :=
  match c.control with
  | .idle _ => c.rest = [] ∧ c.todo = [] ∧ c.calculated = [] ∧ c.live = [] ∧ c.written = [] ∧
      c.cidsUpdatedInThisCycle = []
  | .slices | .rechecking _ => c.todo = [] ∧ c.calculated = [] ∧ c.live = [] ∧ c.written = []
  | .calculating => c.live = [] ∧ c.written = []
  | .draining _ => c.todo = [] ∧ c.calculated = [] ∧ c.written = []
  | .writing => c.todo = [] ∧ c.calculated = []
  | .finalDraining _ =>
    c.rest = [] ∧ c.todo = [] ∧ c.calculated = [] ∧ c.live = [] ∧ c.written = []

structure TreeOk (s : State R) : Prop where
  nodup : s.cids.Nodup
  inDb : ∀ cid row, s.commentUpdates cid = some row → cid ∈ s.cids
  shape : s.cycle.Shape
  once : ∀ cid, s.cycle.count cid ≤ 1
  file : ∀ e ∈ s.files, s.Stored e ∨ s.Queued e ∨ e ∈ s.cycle.written
  published : ∀ cid row, s.commentUpdates cid = some row → row.publishedToPostUpdatesMFS = true →
    (row.postUpdatesBucket, cid) ∈ s.files ∨ s.Moving cid
  queued : ∀ path ∈ s.mfsPathsToRemove, s.Stale path
  batch : ∀ r removal, s.removals r = some removal → ∀ path ∈ removal.toDeleteMfsPaths,
    s.Stale path
  removed : ∀ r removal, s.removals r = some removal → ∀ path ∈ removal.toDeleteMfsPaths,
    path ∉ removal.left → ∀ e ∈ s.files, ¬ Removes s.address path e
  todo : ∀ cid stored, (cid, stored) ∈ s.cycle.todo → cid ∈ s.cids →
    (s.commentUpdates cid).map CommentUpdatesRow.postUpdatesBucket = stored
  calculated : ∀ bucket cid row, (bucket, cid) ∈ s.cycle.calculated →
    s.commentUpdates cid = some row → row.postUpdatesBucket ≤ bucket ∧
      (row.postUpdatesBucket < bucket → (row.postUpdatesBucket, cid) ∈ s.files →
        s.Queued (row.postUpdatesBucket, cid))
  live : ∀ e ∈ s.cycle.live, e.2 ∈ s.cids → s.Stored e
  written : ∀ e ∈ s.cycle.written, e.2 ∈ s.cids → s.Stored e ∧ e ∈ s.files
  updated : ∀ cid ∈ s.cycle.cidsUpdatedInThisCycle, ∀ row, s.commentUpdates cid = some row →
    (row.postUpdatesBucket, cid) ∈ s.files

/-- What a step must not do. -/
def Sound (s : State R) : Event R → Prop
  /- The post is new: nothing of a purged one with its CID is left. -/
  | .store cid =>
    (∀ path ∈ s.mfsPathsToRemove, ∀ bucket, ¬ Names s.address path (bucket, cid)) ∧
      (∀ r, ∀ removal ∈ s.removals r, ∀ path ∈ removal.toDeleteMfsPaths, ∀ bucket,
        ¬ Names s.address path (bucket, cid)) ∧
      (∀ e ∈ s.files, e.2 ≠ cid) ∧ (∀ entry ∈ s.cycle.todo, entry.1 ≠ cid) ∧
      ∀ e ∈ s.cycle.calculated ++ s.cycle.live ++ s.cycle.written, e.2 ≠ cid
  /- The path of the bucket that a post leaves is the right one. -/
  | .calculate _ storedBucket bucket =>
    storedBucket.all (· = bucket) = true ∨ ¬ "/update".toList <:+: ("/" ++ s.address).toList
  /- No removal that is under way has passed the file of a purged post. -/
  | .write e => e.2 ∉ s.cids → ∀ r, ∀ removal ∈ s.removals r, ∀ path ∈ removal.toDeleteMfsPaths,
      Removes s.address path e → path ∈ removal.left
  /- The other paths are removed, too. -/
  | .rmFindsNone r => ∀ removal ∈ s.removals r, ∀ path ∈ removal.left, ∀ e ∈ s.files,
      ¬ Removes s.address path e
  /- No post of the slice was about to move. -/
  | .throws => ∀ e ∈ s.cycle.calculated, ∀ row ∈ s.commentUpdates e.2, row.postUpdatesBucket = e.1
  | _ => True

variable {s t : State R}

theorem State.StaleEntry.moving {e : Entry} (h : s.StaleEntry e) (hstored : s.Stored e)
    (hmem : e.2 ∈ s.cids) : s.Moving e.2 := by
  obtain ⟨row, hrow, hbucket⟩ := hstored
  obtain ⟨row', hrow', hlt | ⟨-, hmoving⟩⟩ := h hmem
  · obtain rfl := Option.some.inj (hrow.symm.trans hrow')
    omega
  · exact hmoving

/-- A stale path that removes the file of a stored bucket is that of a post that is about to
move. -/
theorem State.Stale.moving {e : Entry} {path : String} (h : s.Stale path)
    (hremoves : Removes s.address path e) (hstored : s.Stored e) (hmem : e.2 ∈ s.cids) :
    s.Moving e.2 := by
  obtain ⟨e', hnames, hstale⟩ := h
  obtain rfl := (removesPath_of_names hnames).1 hremoves
  exact hstale.moving hstored hmem

theorem State.Stale.imp {path : String} (h : s.Stale path) (haddress : t.address = s.address)
    (himp : ∀ e, Names s.address path e → s.StaleEntry e → t.StaleEntry e) : t.Stale path := by
  obtain ⟨e, hnames, hstale⟩ := h
  exact ⟨e, by rw [haddress]; exact hnames, himp e hnames hstale⟩

theorem not_moving_of_calculated {cid : PostCid} (h : s.cycle.calculated = []) :
    ¬ s.Moving cid := by
  rintro ⟨bucket, row, hmem, -⟩
  simp [h] at hmem

theorem treeOk_initial (address : String) : TreeOk ({ address := address } : State R) where
  nodup := .nil
  inDb _ _ h := by cases h
  shape := ⟨rfl, rfl, rfl, rfl, rfl, rfl⟩
  once _ := by simp [Cycle.count]
  file _ h := by cases h
  published _ _ h := by cases h
  queued _ h := by cases h
  batch _ _ h := by cases h
  removed _ _ h := by cases h
  todo _ _ h := by cases h
  calculated _ _ _ h := by cases h
  live _ h := by cases h
  written _ h := by cases h
  updated _ h := by cases h

end Invariant

end PostUpdates
end Pkc

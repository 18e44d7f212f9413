import Pkc.Library.Compensation
import Mathlib.Logic.Function.Basic
import Mathlib.Data.List.Basic

/-!
# Renaming a community

An edit that changes the address moves three things: the folder of the post updates in the MFS, the
database file, whose name is the address, and the address of the instance.

* `editPropsOnStartedCommunity` stops the community, moves the folder, backs the database up to the
  new file and removes the old one, and starts again.  When the folder or the database cannot be
  moved, `removePartialDbCopy` and `restoreCommunityAfterFailedRename` put things back.
* `editPropsOnNotStartedCommunity` makes the same moves and puts nothing back.
* `Faults` says which of the calls fail.  A request to Kubo fails in two ways: it is not carried
  out, or it is and the answer is lost.

`Placed` says that the files and the address are at one address and nothing is at the other.
`allOrNothing_rename_iff` is for which faults a rename leaves a community placed, and running again
if it was.
-/

set_option autoImplicit false

namespace Pkc
namespace Rename

open Compensation

/-! ## The stores -/

inductive DbFile
  | absent
  /-- What opening a file that is not there creates. -/
  | empty
  /-- What a backup that failed partway has written. -/
  | truncated
  | complete
deriving DecidableEq, Repr

inductive KuboError
  /-- The message is `file does not exist`. -/
  | fileDoesNotExist
  | directoryAlreadyHasEntry
  | requestFailed
deriving DecidableEq, Repr

inductive KuboFault
  | refused
  /-- The request is carried out and its answer is lost. -/
  | unanswered
deriving DecidableEq, Repr

/-- The calls that can fail, other than the moves in the MFS. -/
inductive Call
  /-- `initDbIfNeeded` before anything is renamed. -/
  | initDb
  | validateNewAddressBeforeEditing
  | stop
  | destoryConnection
  | openOldDb
  | backup
  | rmOldDb
  | rmNewDb
  /-- The folder of the communities cannot be read. -/
  | listRenamedCommunityNow
  /-- The new address is neither a domain nor an IPNS name. -/
  | setAddress
  /-- `initDbIfNeeded` on the file with the new name. -/
  | reopenDb
  | updateDbInternalState
  | start
  /-- The `start()` of `restoreCommunityAfterFailedRename`. -/
  | restart
deriving DecidableEq, Repr

inductive Failure
  | call (call : Call)
  | kubo (error : KuboError)
deriving DecidableEq, Repr

structure Faults where
  fails : Call → Bool
  move : Option KuboFault := none
  /-- The move of the folder back to the old address. -/
  moveBack : Option KuboFault := none
  /-- `os.type() === "Windows_NT"` -/
  windows : Bool := false

variable {Address Posts : Type}

structure State (Address Posts : Type) where
  /-- The file of each name in the folder of the communities. -/
  db : Address → DbFile
  /-- What lies at each path of the MFS. -/
  mfs : List Address → Option Posts
  address : Address
  /-- `_dbConfig.filename` -/
  filename : Address
  /-- The address in the internal state that the database holds. -/
  stored : Address
  /-- The address under which the publish loop runs. -/
  running : Option Address := none

variable [DecidableEq Address]

/-- Where a folder goes: into the one that lies at the destination, if one does. -/
def destination (src dst : Address) (mfs : List Address → Option Posts) : List Address :=
  if (mfs [dst]).isSome then [dst, src] else [dst]

/-- `ipfs files mv /src /dst` -/
def mv (src dst : Address) (mfs : List Address → Option Posts) :
    Except KuboError (List Address → Option Posts) :=
  if (mfs [src]).isNone then .error .fileDoesNotExist
  else
    let target := destination src dst mfs
    if (mfs target).isSome then .error .directoryAlreadyHasEntry
    else .ok fun path =>
      if [src] <+: path then none
      else if target <+: path then mfs (src :: path.drop target.length)
      else mfs path

/-! ## The steps of a rename -/

abbrev Step (Address Posts : Type) := Action (State Address Posts) Failure

def filesMv (fault : Option KuboFault) (src dst : Address) : Step Address Posts := fun s =>
  match fault, mv src dst s.mfs with
  | some .unanswered, .ok mfs => (some (.kubo .requestFailed), { s with mfs := mfs })
  | some _, _ => (some (.kubo .requestFailed), s)
  | none, .ok mfs => (none, { s with mfs := mfs })
  | none, .error e => (some (.kubo e), s)

def movePostUpdatesFolderToNewAddress (fault : Option KuboFault) (oldAddress newAddress : Address) :
    Step Address Posts :=
  ignoring (· == .kubo .fileDoesNotExist) (filesMv fault oldAddress newAddress)

def setDb (name : Address) (file : DbFile) : Step Address Posts :=
  modify fun s => { s with db := Function.update s.db name file }

/-- `initDbIfNeeded`.  Opening a file that is not there creates it. -/
def initDbIfNeeded (f : Faults) (call : Call) : Step Address Posts :=
  andThen (throwIf (f.fails call) (.call call))
    (modify fun s =>
      if s.db s.filename = .absent then
        { s with db := Function.update s.db s.filename .empty }
      else s)

/-- `sourceDb.backup(newPathString)` -/
def backup (f : Faults) (oldDbName newDbName : Address) : Step Address Posts :=
  if f.fails .backup then andThen (setDb newDbName .truncated) (throw (.call .backup))
  else modify fun s => { s with db := Function.update s.db newDbName (s.db oldDbName) }

/-- `fs.promises.rm`, or `deleteOldCommunityInWindows`, which records a failure and returns. -/
def rmOldDb (f : Faults) (oldDbName : Address) : Step Address Posts :=
  if f.fails .rmOldDb then throwIf (!f.windows) (.call .rmOldDb) else setDb oldDbName .absent

def changeDbFilename (f : Faults) (oldDbName newDbName : Address) : Step Address Posts :=
  andThen
    (choose (fun s => s.db oldDbName = .absent) (modify id)
      (andThen (throwIf (f.fails .openOldDb) (.call .openOldDb))
        (andThen (backup f oldDbName newDbName) (rmOldDb f oldDbName))))
    (modify fun s => { s with filename := newDbName })

/-- `stop()` waits for the end of the publish loop before anything in it can throw. -/
def stop (f : Faults) : Step Address Posts :=
  andThen (modify fun s => { s with running := none }) (throwIf (f.fails .stop) (.call .stop))

/-- `start()` takes its state from the database, and stops again when it fails. -/
def start (f : Faults) (call : Call) : Step Address Posts :=
  andThen (initDbIfNeeded f call)
    (modify fun s => { s with address := s.stored, running := some s.stored })

def updateDbInternalState (f : Faults) (newAddress : Address) : Step Address Posts :=
  andThen (throwIf (f.fails .updateDbInternalState) (.call .updateDbInternalState))
    (modify fun s => { s with stored := newAddress })

def setAddress (f : Faults) (newAddress : Address) : Step Address Posts :=
  andThen (throwIf (f.fails .setAddress) (.call .setAddress))
    (modify fun s => { s with address := newAddress })

/-- `refreshCommunitiesList` reads the folder of the communities. -/
def listRenamedCommunityNow (f : Faults) : Step Address Posts :=
  throwIf (f.fails .listRenamedCommunityNow) (.call .listRenamedCommunityNow)

def restoreCommunityAfterFailedRename (f : Faults) (oldAddress newAddress : Address)
    (postUpdatesFolderMoved : Bool) : Step Address Posts :=
  logged (andThen
    (if postUpdatesFolderMoved then
      movePostUpdatesFolderToNewAddress f.moveBack newAddress oldAddress
    else modify id)
    (start f .restart))

def removePartialDbCopy (f : Faults) (oldAddress newAddress : Address) : Step Address Posts :=
  choose (fun s => s.db oldAddress = .absent) (modify id)
    (logged (andThen (throwIf (f.fails .rmNewDb) (.call .rmNewDb)) (setDb newAddress .absent)))

/-- `editPropsOnStartedCommunity`, where the edit names another address. -/
def editPropsOnStartedCommunity (f : Faults) (oldAddress newAddress : Address) :
    Step Address Posts :=
  andThen (throwIf (f.fails .validateNewAddressBeforeEditing)
      (.call .validateNewAddressBeforeEditing))
  (andThen (stop f)
  (andThen
    (onError (movePostUpdatesFolderToNewAddress f.move oldAddress newAddress)
      (restoreCommunityAfterFailedRename f oldAddress newAddress false))
  (andThen
    (onError (changeDbFilename f oldAddress newAddress)
      (andThen (removePartialDbCopy f oldAddress newAddress)
        (restoreCommunityAfterFailedRename f oldAddress newAddress true)))
  (andThen (listRenamedCommunityNow f)
  (andThen (setAddress f newAddress)
  (andThen (initDbIfNeeded f .reopenDb)
  (andThen (updateDbInternalState f newAddress)
    (start f .start))))))))

/-- `editPropsOnNotStartedCommunity`, where the edit names another address. -/
def editPropsOnNotStartedCommunity (f : Faults) (oldAddress newAddress : Address) :
    Step Address Posts :=
  andThen (initDbIfNeeded f .initDb)
  (andThen (throwIf (f.fails .validateNewAddressBeforeEditing)
      (.call .validateNewAddressBeforeEditing))
  (andThen (movePostUpdatesFolderToNewAddress f.move oldAddress newAddress)
  (andThen (throwIf (f.fails .destoryConnection) (.call .destoryConnection))
  (andThen (changeDbFilename f oldAddress newAddress)
  (andThen (listRenamedCommunityNow f)
  (andThen (initDbIfNeeded f .reopenDb)
  (andThen (setAddress f newAddress)
    (updateDbInternalState f newAddress))))))))

/-- The rename of an `edit()`: of the instance that runs, or of a community that is not started. -/
def rename (f : Faults) (newAddress : Address) : Step Address Posts := fun s =>
  if s.running.isSome then editPropsOnStartedCommunity f s.address newAddress s
  else editPropsOnNotStartedCommunity f s.address newAddress s

/-! ## What each step does to a community that is placed -/

/-- The file, the folder if there is one, and the address are at `a`, and nothing is at `b`. -/
@[mk_iff] structure Placed (posts : Option Posts) (a b : Address) (s : State Address Posts) :
    Prop where
  address : s.address = a
  complete : s.db a = .complete
  free : s.db b = .absent
  folder : s.mfs [a] = posts
  noFolder : s.mfs [b] = none

omit [DecidableEq Address] in
theorem Placed.ne {posts : Option Posts} {a b : Address} {s : State Address Posts}
    (h : Placed posts a b s) : a ≠ b := by
  rintro rfl
  have hfile := h.complete.symm.trans h.free
  cases hfile

/-- The state after the folder has gone from `a` to `b`, if there was one. -/
def moved (a b : Address) (s : State Address Posts) : State Address Posts :=
  match mv a b s.mfs with
  | .ok mfs => { s with mfs := mfs }
  | .error _ => s

section Steps

variable {posts : Option Posts} {a b : Address} {s : State Address Posts} {f : Faults}
  {ok : State Address Posts → Prop} {err : Failure → State Address Posts → Prop}

theorem mv_of_none (h : s.mfs [a] = none) : mv a b s.mfs = .error .fileDoesNotExist := by
  simp [mv, h]

theorem mv_of_some {p : Posts} (h : s.mfs [a] = some p) (hfree : s.mfs [b] = none)
    (hne : a ≠ b) :
    ∃ mfs, mv a b s.mfs = .ok mfs ∧ mfs [a] = none ∧ mfs [b] = some p := by
  have hdestination : destination a b s.mfs = [b] := by simp [destination, hfree]
  refine ⟨fun path => if [a] <+: path then none
    else if [b] <+: path then s.mfs (a :: path.drop 1) else s.mfs path, ?_, ?_, ?_⟩
  · simp [mv, hdestination, h, hfree]
  · simp
  · simp [hne, h]

section Moved

variable (a b s)

@[simp] theorem moved_db : (moved a b s).db = s.db := by
  unfold moved
  cases mv a b s.mfs <;> rfl

@[simp] theorem moved_address : (moved a b s).address = s.address := by
  unfold moved
  cases mv a b s.mfs <;> rfl

@[simp] theorem moved_filename : (moved a b s).filename = s.filename := by
  unfold moved
  cases mv a b s.mfs <;> rfl

@[simp] theorem moved_stored : (moved a b s).stored = s.stored := by
  unfold moved
  cases mv a b s.mfs <;> rfl

@[simp] theorem moved_running : (moved a b s).running = s.running := by
  unfold moved
  cases mv a b s.mfs <;> rfl

end Moved

/-- The folder is where it was sent, and no longer where it was. -/
theorem moved_mfs (h : s.mfs [a] = posts) (hfree : s.mfs [b] = none) (hne : a ≠ b) :
    (moved a b s).mfs [a] = none ∧ (moved a b s).mfs [b] = posts := by
  cases posts with
  | none => simp [moved, mv_of_none h, h, hfree]
  | some p =>
    obtain ⟨mfs, hmv, hmfs⟩ := mv_of_some h hfree hne
    simp [moved, hmv, hmfs]

/-- A folder that is not there counts as moved. -/
theorem wp_movePostUpdatesFolderToNewAddress {fault : Option KuboFault} (h : s.mfs [a] = posts)
    (hfree : s.mfs [b] = none) (hne : a ≠ b) :
    Wp (movePostUpdatesFolderToNewAddress fault a b) ok err s ↔
      match fault with
      | none => ok (moved a b s)
      | some .refused => err (.kubo .requestFailed) s
      | some .unanswered => err (.kubo .requestFailed) (moved a b s) := by
  rw [movePostUpdatesFolderToNewAddress, wp_ignoring]
  cases posts with
  | none =>
    rcases fault with _ | _ | _ <;> simp [Wp, filesMv, moved, mv_of_none h]
  | some p =>
    obtain ⟨mfs, hmv, -⟩ := mv_of_some h hfree hne
    rcases fault with _ | _ | _ <;> simp [Wp, filesMv, moved, hmv]

/-- A database that is there is opened as it is. -/
theorem wp_initDbIfNeeded {call : Call} (h : s.db s.filename ≠ .absent) :
    Wp (initDbIfNeeded f call) ok err s ↔ if f.fails call then err (.call call) s else ok s := by
  simp [initDbIfNeeded, h]

theorem wp_start {call : Call} (h : s.db s.filename ≠ .absent) :
    Wp (start f call) ok err s ↔
      if f.fails call then err (.call call) s
      else ok { s with address := s.stored, running := some s.stored } := by
  rw [start, wp_andThen, wp_initDbIfNeeded h]
  simp

omit [DecidableEq Address] in
theorem wp_setAddress :
    Wp (setAddress f b) ok err s ↔
      if f.fails .setAddress then err (.call .setAddress) s else ok { s with address := b } := by
  simp [setAddress]

theorem wp_changeDbFilename (h : s.db a = .complete) :
    Wp (changeDbFilename f a b) ok err s ↔
      if f.fails .openOldDb then err (.call .openOldDb) s
      else if f.fails .backup then
        err (.call .backup) { s with db := Function.update s.db b .truncated }
      else if f.fails .rmOldDb then
        if f.windows then
          ok { s with db := Function.update s.db b .complete, filename := b }
        else err (.call .rmOldDb) { s with db := Function.update s.db b .complete }
      else ok { s with
        db := Function.update (Function.update s.db b .complete) a .absent, filename := b } := by
  rw [changeDbFilename, wp_andThen, wp_choose, if_neg (by simp [h])]
  cases hopen : f.fails .openOldDb with
  | true => simp
  | false =>
    cases hbackup : f.fails .backup with
    | true => simp [backup, setDb, hbackup]
    | false =>
      cases hrm : f.fails .rmOldDb with
      | true => cases hwindows : f.windows <;> simp [backup, rmOldDb, hbackup, hrm, hwindows, h]
      | false => simp [backup, rmOldDb, setDb, hbackup, hrm, h]

theorem wp_removePartialDbCopy (h : s.db a = .complete) :
    Wp (removePartialDbCopy f a b) ok err s ↔
      if f.fails .rmNewDb then ok s
      else ok { s with db := Function.update s.db b .absent } := by
  simp [removePartialDbCopy, setDb, h]

theorem wp_restore_of_not_moved (h : s.db s.filename ≠ .absent) :
    Wp (restoreCommunityAfterFailedRename f a b false) ok err s ↔
      if f.fails .restart then ok s
      else ok { s with address := s.stored, running := some s.stored } := by
  rw [restoreCommunityAfterFailedRename, wp_logged, wp_andThen, if_neg (by simp), wp_modify]
  exact wp_start h

theorem wp_restore_of_moved (h : s.db s.filename ≠ .absent) (hfolder : s.mfs [b] = posts)
    (hfree : s.mfs [a] = none) (hne : a ≠ b) :
    Wp (restoreCommunityAfterFailedRename f a b true) ok err s ↔
      match f.moveBack with
      | some .refused => ok s
      | some .unanswered => ok (moved b a s)
      | none =>
        if f.fails .restart then ok (moved b a s)
        else ok { moved b a s with address := s.stored, running := some s.stored } := by
  rw [restoreCommunityAfterFailedRename, wp_logged, wp_andThen, if_pos rfl,
    wp_movePostUpdatesFolderToNewAddress hfolder hfree hne.symm]
  rcases f.moveBack with _ | _ | _
  · simp only []
    rw [wp_start (by simpa using h)]
    simp
  · rfl
  · rfl

end Steps

/-! ## All or nothing -/

/-- The state a rename begins in: everything is at the address, and so is the community if it is
running.  Nothing is at the new address, which another community may not have either. -/
structure Settled (posts : Option Posts) (newAddress : Address) (s : State Address Posts) : Prop
    where
  placed : Placed posts s.address newAddress s
  filename : s.filename = s.address
  stored : s.stored = s.address
  running : ∀ address ∈ s.running, address = s.address

/-- Everything is at the old address or everything is at the new one, and a community that was
running runs under that address. -/
@[mk_iff] structure AllOrNothing (posts : Option Posts) (newAddress : Address)
    (s t : State Address Posts) : Prop where
  placed : Placed posts s.address newAddress t ∨ Placed posts newAddress s.address t
  running : s.running.isSome → t.running = some t.address

/-- The database stays at its old name and the rename is given up. -/
def Faults.changeDbFilenameThrows (f : Faults) : Bool :=
  f.fails .openOldDb || f.fails .backup || f.fails .rmOldDb && !f.windows

/-- A community that has been stopped: of what follows, everything succeeds that the outcome
depends on. -/
def Faults.sparesStopped (f : Faults) (hasFolder : Bool) : Bool :=
  match f.move with
  | some fault => !(hasFolder && fault == .unanswered) && !f.fails .restart
  | none =>
    if f.changeDbFilenameThrows then
      (f.fails .openOldDb || !f.fails .rmNewDb) && f.moveBack == none && !f.fails .restart
    else
      !f.fails .rmOldDb && !f.fails .listRenamedCommunityNow && !f.fails .setAddress &&
        !f.fails .reopenDb && !f.fails .updateDbInternalState && !f.fails .start

/-- For a community that is started: the rename is refused before the community is stopped, or it
stops and the moves are spared. -/
def Faults.sparesStarted (f : Faults) (hasFolder : Bool) : Bool :=
  f.fails .validateNewAddressBeforeEditing || !f.fails .stop && f.sparesStopped hasFolder

/-- Without anything that puts back: nothing fails once something has been moved. -/
def Faults.sparesMoves (f : Faults) (hasFolder : Bool) : Bool :=
  match f.move with
  | some fault => !(hasFolder && fault == .unanswered)
  | none =>
    if f.fails .destoryConnection || f.fails .openOldDb then !hasFolder
    else !f.fails .backup && !f.fails .rmOldDb && !f.fails .listRenamedCommunityNow &&
      !f.fails .reopenDb && !f.fails .setAddress

/-- For a community that is not started. -/
def Faults.sparesNotStarted (f : Faults) (hasFolder : Bool) : Bool :=
  f.fails .initDb || f.fails .validateNewAddressBeforeEditing || f.sparesMoves hasFolder

def Faults.spares (f : Faults) (started hasFolder : Bool) : Bool :=
  if started then f.sparesStarted hasFolder else f.sparesNotStarted hasFolder

section AllOrNothing

variable {posts : Option Posts} {a b : Address} {s t : State Address Posts} {f : Faults}

/-- What a rename of a started community should end in. -/
@[mk_iff] structure Restarted (posts : Option Posts) (a b : Address) (t : State Address Posts) :
    Prop where
  placed : Placed posts a b t ∨ Placed posts b a t
  running : t.running = some t.address

/-- The community does not run, its folder is at `b` and everything else is at `a`; of what is at
the new name of the database nothing is said. -/
structure FolderAhead (posts : Option Posts) (a b : Address) (t : State Address Posts) : Prop where
  address : t.address = a
  complete : t.db a = .complete
  folder : t.mfs [b] = posts
  noFolder : t.mfs [a] = none
  filename : t.filename = a
  stored : t.stored = a
  running : t.running = none

theorem FolderAhead.moved (h : Placed posts a b s) (hfilename : s.filename = a)
    (hstored : s.stored = a) (hrunning : s.running = none) :
    FolderAhead posts a b (moved a b s) := by
  obtain ⟨hgone, harrived⟩ := moved_mfs h.folder h.noFolder h.ne
  constructor <;> simp [*, h.address, h.complete]

theorem FolderAhead.update (h : FolderAhead posts a b t) (hne : a ≠ b) (file : DbFile) :
    FolderAhead posts a b { t with db := Function.update t.db b file } :=
  { h with complete := by simp [hne, h.complete] }

/-- Moving the folder back and starting. -/
theorem restarted_restore (h : FolderAhead posts a b t) (hne : a ≠ b) :
    Wp (restoreCommunityAfterFailedRename f a b true) (Restarted posts a b)
        (fun _ => Restarted posts a b) t ↔
      t.db b = .absent ∧ f.moveBack = none ∧ f.fails .restart = false := by
  rw [wp_restore_of_moved (by simp [h.filename, h.complete]) h.folder h.noFolder hne]
  obtain ⟨hgone, harrived⟩ := moved_mfs h.folder h.noFolder hne.symm
  rcases f.moveBack with _ | _ | _
  · cases hrestart : f.fails .restart with
    | true => simp [restarted_iff, h.running]
    | false => simp [restarted_iff, placed_iff, h.stored, h.complete, hne, hgone, harrived]
  · simp [restarted_iff, h.running]
  · simp [restarted_iff, h.running]

/-- The same, once the copy has been removed or could not be. -/
theorem restarted_removePartialDbCopy (h : FolderAhead posts a b t) (hne : a ≠ b) :
    Wp (andThen (removePartialDbCopy f a b) (restoreCommunityAfterFailedRename f a b true))
        (Restarted posts a b) (fun _ => Restarted posts a b) t ↔
      (t.db b = .absent ∨ f.fails .rmNewDb = false) ∧ f.moveBack = none ∧
        f.fails .restart = false := by
  rw [wp_andThen, wp_removePartialDbCopy h.complete]
  cases hrm : f.fails .rmNewDb with
  | true => simpa using restarted_restore h hne
  | false => simpa using restarted_restore (h.update hne .absent) hne

/-- Starting at the new address, with what is left of the file with the old name. -/
theorem restarted_start (hrunning : t.running = none) (hne : a ≠ b) (hfilename : t.filename = b)
    (hcomplete : t.db b = .complete) (hfolder : t.mfs [b] = posts) (hgone : t.mfs [a] = none) :
    Wp (andThen (listRenamedCommunityNow f) (andThen (setAddress f b)
          (andThen (initDbIfNeeded f .reopenDb) (andThen (updateDbInternalState f b)
            (start f .start)))))
        (Restarted posts a b) (fun _ => Restarted posts a b) t ↔
      t.db a = .absent ∧ f.fails .listRenamedCommunityNow = false ∧
        f.fails .setAddress = false ∧ f.fails .reopenDb = false ∧
        f.fails .updateDbInternalState = false ∧ f.fails .start = false := by
  have hfile : t.db t.filename ≠ .absent := by simp [hfilename, hcomplete]
  rw [wp_andThen, listRenamedCommunityNow, wp_throwIf]
  cases hlist : f.fails .listRenamedCommunityNow with
  | true => simp [restarted_iff, hrunning]
  | false =>
    rw [if_neg (by simp), wp_andThen, wp_setAddress]
    cases haddress : f.fails .setAddress with
    | true => simp [restarted_iff, hrunning]
    | false =>
      rw [if_neg (by simp), wp_andThen, wp_initDbIfNeeded (by exact hfile)]
      cases hreopen : f.fails .reopenDb with
      | true => simp [restarted_iff, hrunning]
      | false =>
        simp only [Bool.false_eq_true, if_false, wp_andThen, updateDbInternalState, wp_throwIf]
        cases hstore : f.fails .updateDbInternalState with
        | true => simp [restarted_iff, hrunning]
        | false =>
          simp only [Bool.false_eq_true, if_false, wp_modify]
          rw [wp_start (by exact hfile)]
          cases hstart : f.fails .start with
          | true => simp [restarted_iff, hrunning]
          | false => simp [restarted_iff, placed_iff, hne.symm, hcomplete, hfolder, hgone]

/-- The database of a started community whose folder has been moved. -/
theorem restarted_changeDbFilename (h : FolderAhead posts a b t) (hfree : t.db b = .absent)
    (hne : a ≠ b) :
    Wp (onError (changeDbFilename f a b)
          (andThen (removePartialDbCopy f a b) (restoreCommunityAfterFailedRename f a b true)))
        (Wp (andThen (listRenamedCommunityNow f) (andThen (setAddress f b)
            (andThen (initDbIfNeeded f .reopenDb) (andThen (updateDbInternalState f b)
              (start f .start)))))
          (Restarted posts a b) fun _ => Restarted posts a b)
        (fun _ => Restarted posts a b) t ↔
      if f.changeDbFilenameThrows then
        (f.fails .openOldDb || !f.fails .rmNewDb) && f.moveBack == none && !f.fails .restart
      else
        !f.fails .rmOldDb && !f.fails .listRenamedCommunityNow && !f.fails .setAddress &&
          !f.fails .reopenDb && !f.fails .updateDbInternalState && !f.fails .start := by
  rw [wp_onError, wp_changeDbFilename h.complete, Faults.changeDbFilenameThrows]
  cases hopen : f.fails .openOldDb with
  | true => simpa [hfree] using restarted_removePartialDbCopy h hne
  | false =>
    cases hbackup : f.fails .backup with
    | true => simpa [and_assoc] using restarted_removePartialDbCopy (h.update hne .truncated) hne
    | false =>
      cases hrm : f.fails .rmOldDb with
      | false =>
        have hstart := restarted_start (f := f)
          (t := { t with
            db := Function.update (Function.update t.db b .complete) a .absent, filename := b })
          h.running hne rfl (by simp [hne.symm]) h.folder h.noFolder
        simpa [and_assoc] using hstart
      | true =>
        cases hwindows : f.windows with
        | false =>
          simpa [and_assoc] using restarted_removePartialDbCopy (h.update hne .complete) hne
        | true =>
          have hstart := restarted_start (f := f)
            (t := { t with db := Function.update t.db b .complete, filename := b })
            h.running hne rfl (by simp) h.folder h.noFolder
          simpa [hne, h.complete] using hstart

/-- A community that is stopped, from the move of its folder on. -/
theorem restarted_move (h : Placed posts a b s) (hfilename : s.filename = a)
    (hstored : s.stored = a) (hrunning : s.running = none) :
    Wp (andThen
        (onError (movePostUpdatesFolderToNewAddress f.move a b)
          (restoreCommunityAfterFailedRename f a b false))
        (andThen
          (onError (changeDbFilename f a b)
            (andThen (removePartialDbCopy f a b) (restoreCommunityAfterFailedRename f a b true)))
          (andThen (listRenamedCommunityNow f) (andThen (setAddress f b)
            (andThen (initDbIfNeeded f .reopenDb) (andThen (updateDbInternalState f b)
              (start f .start)))))))
        (Restarted posts a b) (fun _ => Restarted posts a b) s ↔
      f.sparesStopped posts.isSome := by
  obtain ⟨hgone, harrived⟩ := moved_mfs h.folder h.noFolder h.ne
  have hne := h.ne
  have hfile : s.db s.filename ≠ .absent := by simp [hfilename, h.complete]
  rw [wp_andThen, wp_onError, wp_movePostUpdatesFolderToNewAddress h.folder h.noFolder hne,
    Faults.sparesStopped]
  rcases f.move with _ | _ | _
  · -- the folder has been moved
    rw [wp_andThen]
    exact restarted_changeDbFilename (.moved h hfilename hstored hrunning)
      (by simpa using h.free) hne
  · -- the request was refused
    simp only []
    rw [wp_restore_of_not_moved hfile]
    cases hrestart : f.fails .restart with
    | true => simp [restarted_iff, hrunning]
    | false =>
      simp [restarted_iff, placed_iff, hstored, h.complete, h.free, h.folder, h.noFolder]
  · -- the folder has been moved, and the error says that it has not
    simp only []
    rw [wp_restore_of_not_moved (by simpa using hfile)]
    cases hrestart : f.fails .restart with
    | true => simp [restarted_iff, hrunning]
    | false =>
      simp [restarted_iff, placed_iff, hstored, h.complete, h.free, hgone, harrived, hne]
      cases posts <;> simp

/-- Taking the new address, with what is left of the file with the old name. -/
theorem placed_setAddress (haddress : t.address = a) (hne : a ≠ b) (hfilename : t.filename = b)
    (hcomplete : t.db b = .complete) (hfolder : t.mfs [b] = posts) (hgone : t.mfs [a] = none) :
    Wp (andThen (listRenamedCommunityNow f) (andThen (initDbIfNeeded f .reopenDb)
          (andThen (setAddress f b) (updateDbInternalState f b))))
        (fun t => Placed posts a b t ∨ Placed posts b a t)
        (fun _ t => Placed posts a b t ∨ Placed posts b a t) t ↔
      t.db a = .absent ∧ f.fails .listRenamedCommunityNow = false ∧ f.fails .reopenDb = false ∧
        f.fails .setAddress = false := by
  have hfile : t.db t.filename ≠ .absent := by rw [hfilename, hcomplete]; simp
  rw [wp_andThen, listRenamedCommunityNow, wp_throwIf]
  cases hlist : f.fails .listRenamedCommunityNow with
  | true => simp [placed_iff, haddress, hne, hcomplete]
  | false =>
    rw [if_neg (by simp), wp_andThen, wp_initDbIfNeeded hfile]
    cases hreopen : f.fails .reopenDb with
    | true => simp [placed_iff, haddress, hne, hcomplete]
    | false =>
      rw [if_neg (by simp), wp_andThen, wp_setAddress]
      cases hset : f.fails .setAddress with
      | true => simp [placed_iff, haddress, hne, hcomplete]
      | false =>
        rw [if_neg (by simp), updateDbInternalState, wp_andThen, wp_throwIf]
        cases f.fails .updateDbInternalState <;>
          simp [placed_iff, hne.symm, hcomplete, hfolder, hgone]

/-- A community that is not started, from the move of its folder on. -/
theorem placed_move (h : Placed posts a b s) :
    Wp (andThen (movePostUpdatesFolderToNewAddress f.move a b)
        (andThen (throwIf (f.fails .destoryConnection) (.call .destoryConnection))
          (andThen (changeDbFilename f a b) (andThen (listRenamedCommunityNow f)
            (andThen (initDbIfNeeded f .reopenDb)
              (andThen (setAddress f b) (updateDbInternalState f b)))))))
        (fun t => Placed posts a b t ∨ Placed posts b a t)
        (fun _ t => Placed posts a b t ∨ Placed posts b a t) s ↔
      f.sparesMoves posts.isSome := by
  obtain ⟨hgone, harrived⟩ := moved_mfs h.folder h.noFolder h.ne
  have hne := h.ne
  have hahead : (Placed posts a b (moved a b s) ∨ Placed posts b a (moved a b s)) ↔
      posts = none := by
    simp [placed_iff, h.address, h.complete, h.free, hgone, harrived, hne]
    cases posts <;> simp
  rw [wp_andThen, wp_movePostUpdatesFolderToNewAddress h.folder h.noFolder hne,
    Faults.sparesMoves]
  rcases f.move with _ | _ | _
  · simp only []
    rw [wp_andThen, wp_throwIf]
    cases hclose : f.fails .destoryConnection with
    | true => simpa using hahead
    | false =>
      rw [if_neg (by simp), wp_andThen, wp_changeDbFilename (by simpa using h.complete),
        Bool.false_or]
      cases hopen : f.fails .openOldDb with
      | true => simpa using hahead
      | false =>
        cases hbackup : f.fails .backup with
        | true => simp [placed_iff, hne]
        | false =>
          cases hrm : f.fails .rmOldDb with
          | true =>
            cases hwindows : f.windows with
            | true =>
              have hset := placed_setAddress (f := f) (t := { moved a b s with
                db := Function.update s.db b .complete, filename := b })
                (by simpa using h.address) hne rfl (by simp) harrived hgone
              simpa [hne, h.complete] using hset
            | false => simp [placed_iff, hne, h.complete]
          | false =>
            have hset := placed_setAddress (f := f) (t := { moved a b s with
              db := Function.update (Function.update s.db b .complete) a .absent, filename := b })
              (by simpa using h.address) hne rfl (by simp [hne.symm]) harrived hgone
            simpa [and_assoc] using hset
  · simp [h]
  · simpa using hahead

variable {newAddress : Address}

theorem allOrNothing_started (h : Settled posts newAddress s) (hrunning : s.running.isSome) :
    AllOrNothing posts newAddress s (editPropsOnStartedCommunity f s.address newAddress s).2 ↔
      f.sparesStarted posts.isSome := by
  obtain ⟨address, haddress⟩ := Option.isSome_iff_exists.1 hrunning
  have hgoal : ∀ t, AllOrNothing posts newAddress s t ↔ Restarted posts s.address newAddress t := by
    simp [allOrNothing_iff, restarted_iff, hrunning]
  rw [← wp_state (P := AllOrNothing posts newAddress s), wp_congr hgoal fun _ => hgoal,
    editPropsOnStartedCommunity, wp_andThen, wp_throwIf, Faults.sparesStarted]
  cases hvalidate : f.fails .validateNewAddressBeforeEditing with
  | true => simp [restarted_iff, h.placed, h.running, haddress]
  | false =>
    rw [if_neg (by simp), wp_andThen, stop, wp_andThen, wp_modify, wp_throwIf, Bool.false_or]
    cases hstop : f.fails .stop with
    | true => simp [restarted_iff]
    | false =>
      have hplaced : Placed posts s.address newAddress { s with running := none } :=
        { h.placed with }
      rw [if_neg (by simp), Bool.not_false, Bool.true_and]
      exact restarted_move hplaced h.filename h.stored rfl

theorem allOrNothing_notStarted (h : Settled posts newAddress s) (hrunning : s.running = none) :
    AllOrNothing posts newAddress s (editPropsOnNotStartedCommunity f s.address newAddress s).2 ↔
      f.sparesNotStarted posts.isSome := by
  have hgoal : ∀ t, AllOrNothing posts newAddress s t ↔
      Placed posts s.address newAddress t ∨ Placed posts newAddress s.address t := by
    simp [allOrNothing_iff, hrunning]
  rw [← wp_state (P := AllOrNothing posts newAddress s), wp_congr hgoal fun _ => hgoal,
    editPropsOnNotStartedCommunity, wp_andThen,
    wp_initDbIfNeeded (by simp [h.filename, h.placed.complete]), Faults.sparesNotStarted]
  cases hinit : f.fails .initDb with
  | true => simp [h.placed]
  | false =>
    rw [if_neg (by simp), wp_andThen, wp_throwIf, Bool.false_or]
    cases hvalidate : f.fails .validateNewAddressBeforeEditing with
    | true => simp [h.placed]
    | false =>
      rw [if_neg (by simp), Bool.false_or]
      exact placed_move h.placed

/-- **All or nothing**.  For every fault and every community with its files in place, a rename
leaves the files and the address together, and a started community running there, exactly for the
faults that `Faults.spares` allows. -/
theorem allOrNothing_rename_iff (h : Settled posts newAddress s) :
    AllOrNothing posts newAddress s (rename f newAddress s).2 ↔
      f.spares s.running.isSome posts.isSome := by
  rw [rename, Faults.spares]
  cases hrunning : s.running with
  | none => simpa using allOrNothing_notStarted h hrunning
  | some address => simpa using allOrNothing_started h (by simp [hrunning])

end AllOrNothing

/-! ## Two communities that are renamed -/

/-- A community that is not started, at address `1`. -/
def idle : State Nat String where
  db name := if name = 1 then .complete else .absent
  mfs path := if path = [1] then some "posts" else none
  address := 1
  filename := 1
  stored := 1

theorem settled_idle : Settled (some "posts") 2 idle where
  placed := ⟨rfl, rfl, rfl, rfl, rfl⟩
  filename := rfl
  stored := rfl
  running := by rintro _ ⟨⟩

theorem allOrNothing_noFaults :
    AllOrNothing (some "posts") 2 idle (rename ⟨fun _ => false, none, none, false⟩ 2 idle).2 :=
  (allOrNothing_rename_iff settled_idle).2 rfl

/-- The backup of the database fails partway. -/
def backupFails : Faults where
  fails call := call = .backup

/-- The folder stays at the new address, the database and the instance at the old one, and what the
backup has written lies where the community of the new address would be looked for. -/
theorem not_allOrNothing_backupFails :
    let after := (rename backupFails 2 idle).2
    (after.address = 1 ∧ after.db 1 = .complete ∧ after.db 2 = .truncated ∧
        after.mfs [1] = none ∧ after.mfs [2] = some "posts") ∧
      Settled (some "posts") 2 idle ∧ ¬ AllOrNothing (some "posts") 2 idle after := by
  intro after
  have hfile : after.db 2 = .truncated := by decide
  refine ⟨by decide, settled_idle, fun h => ?_⟩
  rcases h.placed with hplaced | hplaced
  · exact absurd (hfile.symm.trans hplaced.free) (by decide)
  · exact absurd (hfile.symm.trans hplaced.complete) (by decide)

end Rename
end Pkc

import Mathlib.Data.List.Nodup
import Pkc.Library.Runs
import Pkc.Library.Tasks

/-!
# The exports of a community

An export copies the database of a community to a file, one export after the other.  What becomes of
each is kept in a list of records, which is written to the database after every change and read back
when the community starts.  A record is found by its id, changed or removed at its index.

* `step` is what an export, a deletion or a reload does up to its next `await`, in any order.
* `Chain` needs no guard: the exports run one at a time in the order in which they were chained, and
  the first of them can always go on.
* `Apart` is the guard under which the records are exact, `Records` the invariant, and `Exact` what
  follows from it.  `deleted` and `order` are history.
-/

set_option autoImplicit false

namespace Pkc
namespace ExportRecords

open Runs Tasks

/-! ## The records -/

inductive ErrorCode
  | exportCancelled
  | exportBackupFailed
deriving DecidableEq, Repr

structure CommunityExportRecord (E P : Type) where
  exportId : E
  /-- In per cent. -/
  progress : Nat := 0
  size : Option Nat := none
  sha256 : Option String := none
  /-- The path in the `file:` url. -/
  url : Option P := none
  error : Option ErrorCode := none
deriving DecidableEq

variable {E D P : Type}

/-- Nothing has been recorded but the progress. -/
structure CommunityExportRecord.Open (r : CommunityExportRecord E P) : Prop where
  url : r.url = none
  error : r.error = none

structure CommunityExportRecord.Complete (r : CommunityExportRecord E P) (path : P) : Prop where
  progress : r.progress = 100
  size : r.size.isSome = true
  sha256 : r.sha256.isSome = true
  url : r.url = some path
  error : r.error = none

structure CommunityExportRecord.Failed (r : CommunityExportRecord E P) : Prop where
  url : r.url = none
  error : r.error.isSome = true

inductive Phase
  /-- The record is listed and written. -/
  | pushed
  /-- Chained on `_exportQueue`. -/
  | queued
  | running
  /-- The outcome is in the record, and `finally` is next. -/
  | recorded
  | ended
deriving DecidableEq, Repr

structure Export (P : Type) where
  destPath : P
  phase : Phase := .pushed
  /-- `controller.signal.aborted` -/
  aborted : Bool := false
deriving DecidableEq

/-- A deletion that waits for `unlink`. -/
structure Deletion (E P : Type) where
  exportId : E
  idx : Nat
  url : P
  unlinked : Bool := false
deriving DecidableEq

structure State (E D P : Type) where
  /-- `_exports` -/
  exports : List (CommunityExportRecord E P) := []
  /-- What is stored under `EXPORTS`. -/
  keyv : List (CommunityExportRecord E P) := []
  tasks : E → Option (Export P) := fun _ => none
  /-- The exports that are chained on `_exportQueue` and are not over. -/
  exportQueue : List E := []
  activeExports : E → Bool := fun _ => false
  deletions : D → Option (Deletion E P) := fun _ => none
  files : P → Bool := fun _ => false
  /-- The exports whose record was removed by a deletion. -/
  deleted : List E := []
  /-- All exports that were chained. -/
  order : List E := []

inductive Action (E D P : Type)
  | exportCommunity (e : E) (destPath : P) (persisted : Bool)
  | chain (e : E)
  | begin (e : E) (persisted : Bool)
  | progress (e : E) (progress : Nat) (persisted : Bool)
  /-- The backup has returned the size and the hash, or has thrown. -/
  | finish (e : E) (result : Option (Nat × String)) (persisted : Bool)
  | close (e : E)
  | cancelExport (e : E)
  | deleteExportRecord (d : D) (e : E) (persisted : Bool)
  /-- `unlink` has removed the file, or its error is swallowed. -/
  | unlink (d : D) (removed : Bool)
  | splice (d : D) (persisted : Bool)
  | loadAndPruneExportsFromKeyv (persisted : Bool)

variable [DecidableEq E] [DecidableEq D] [DecidableEq P]

/-! ## The steps -/

/-- `persistExports`.  An error is logged. -/
def State.persistExports (s : State E D P) (persisted : Bool) : State E D P :=
  { s with keyv := if persisted then s.exports else s.keyv }

/-- The first record with the id. -/
def patchFirst (e : E) (patch : CommunityExportRecord E P → CommunityExportRecord E P) :
    List (CommunityExportRecord E P) → List (CommunityExportRecord E P)
  | [] => []
  | r :: rest => if r.exportId = e then patch r :: rest else r :: patchFirst e patch rest

def State.updateRecord (s : State E D P) (e : E)
    (patch : CommunityExportRecord E P → CommunityExportRecord E P) (persisted : Bool) :
    State E D P :=
  if s.exports.any (·.exportId = e) then
    { s with exports := patchFirst e patch s.exports }.persistExports persisted
  else s

def State.setTask (s : State E D P) (e : E) (task : Export P) : State E D P :=
  { s with tasks := Function.update s.tasks e (some task) }

/-- The queue's callback is over, and the one behind it is next. -/
def State.leaveQueue (s : State E D P) (e : E) (task : Export P) : State E D P :=
  { s.setTask e { task with phase := .ended } with exportQueue := s.exportQueue.tail }

/-- `exportCommunityEmbedded` up to the first `await`. -/
def State.push (s : State E D P) (e : E) (destPath : P) (persisted : Bool) : State E D P :=
  { s with
    tasks := Function.update s.tasks e (some ({ destPath := destPath } : Export P))
    exports := s.exports ++ [({ exportId := e } : CommunityExportRecord E P)] }.persistExports
      persisted

/-- `exportCommunityEmbedded` after it. -/
def State.chain (s : State E D P) (e : E) (task : Export P) : State E D P :=
  { s.setTask e { task with phase := .queued } with
    exportQueue := s.exportQueue ++ [e]
    activeExports := Function.update s.activeExports e true
    order := s.order ++ [e] }

/-- What the queue does with an export.  Only `runExportTask` ends with `_activeExports.delete`. -/
def State.beginExport (s : State E D P) (e : E) (task : Export P) (persisted : Bool) :
    State E D P :=
  match s.exports.find? (·.exportId = e) with
  | none => s.leaveQueue e task
  | some current =>
    if current.error.isSome then s.leaveQueue e task
    else if task.aborted then
      (s.updateRecord e (fun r => { r with error := some .exportCancelled }) persisted).leaveQueue
        e task
    else s.setTask e { task with phase := .running }

/-- The backup is renamed to its path, and recorded. -/
def State.complete (s : State E D P) (e : E) (task : Export P) (size : Nat) (sha256 : String)
    (persisted : Bool) : State E D P :=
  { s.setTask e { task with phase := .recorded } with
    files := Function.update s.files task.destPath true }.updateRecord e
    (fun r => { r with
      progress := 100, size := some size, sha256 := some sha256, url := some task.destPath })
    persisted

/-- The backup has thrown. -/
def State.failExport (s : State E D P) (e : E) (task : Export P) (persisted : Bool) :
    State E D P :=
  (s.setTask e { task with phase := .recorded }).updateRecord e
    (fun r => { r with
      error := some (if task.aborted then .exportCancelled else .exportBackupFailed) })
    persisted

def State.close (s : State E D P) (e : E) (task : Export P) : State E D P :=
  { s.leaveQueue e task with activeExports := Function.update s.activeExports e false }

/-- `_exports.splice(idx, 1)` -/
def State.splice (s : State E D P) (e : E) (idx : Nat) (persisted : Bool) : State E D P :=
  { s with exports := s.exports.eraseIdx idx, deleted := e :: s.deleted }.persistExports persisted

/-- `deleteExportRecord` up to its first `await`, or to its end if there is no file to remove. -/
def State.deleteExportRecord (s : State E D P) (d : D) (e : E) (persisted : Bool) :
    State E D P :=
  match s.exports.findIdx? (·.exportId = e) with
  | none => s
  | some idx =>
    match (s.exports[idx]?).bind (·.url) with
    | none => s.splice e idx persisted
    | some url =>
      let deletion : Deletion E P := { exportId := e, idx := idx, url := url }
      { s with deletions := Function.update s.deletions d (some deletion) }

def State.unlink (s : State E D P) (d : D) (deletion : Deletion E P) (removed : Bool) :
    State E D P :=
  { s with
    files := if removed then Function.update s.files deletion.url false else s.files
    deletions := Function.update s.deletions d (some { deletion with unlinked := true }) }

def State.endDeletion (s : State E D P) (d : D) (deletion : Deletion E P) (persisted : Bool) :
    State E D P :=
  { s with deletions := Function.update s.deletions d none }.splice deletion.exportId deletion.idx
    persisted

/-- A record that is kept when the records are read back: a complete one whose file is there, or a
failed one. -/
def isKept (files : P → Bool) (r : CommunityExportRecord E P) : Bool :=
  match decide (r.progress = 100), r.url with
  | true, some path => files path
  | _, _ => r.error.isSome

def State.loadAndPruneExportsFromKeyv (s : State E D P) (persisted : Bool) : State E D P :=
  let pruned := s.keyv.filter (isKept s.files)
  let loaded := { s with exports := pruned }
  if pruned.length = s.keyv.length then loaded else loaded.persistExports persisted

/-- A step of an export that is in the phase. -/
def State.inPhase (s : State E D P) (e : E) (phase : Phase)
    (next : Export P → Option (State E D P)) : Option (State E D P) :=
  match s.tasks e with
  | none => none
  | some task => if task.phase = phase then next task else none

def step (s : State E D P) : Action E D P → Option (State E D P)
  | .exportCommunity e destPath persisted =>
    if (s.tasks e).isSome then none else some (s.push e destPath persisted)
  | .chain e => s.inPhase e .pushed fun task => some (s.chain e task)
  | .begin e persisted => s.inPhase e .queued fun task =>
    if s.exportQueue.head? = some e then some (s.beginExport e task persisted) else none
  | .progress e progress persisted => s.inPhase e .running fun _ =>
    if progress < 100 then
      some (s.updateRecord e (fun r => { r with progress := progress }) persisted)
    else none
  | .finish e result persisted => s.inPhase e .running fun task =>
    match result with
    | some (size, sha256) => some (s.complete e task size sha256 persisted)
    | none => some (s.failExport e task persisted)
  | .close e => s.inPhase e .recorded fun task => some (s.close e task)
  | .cancelExport e =>
    match s.tasks e with
    | none => none
    | some task =>
      some (if s.activeExports e then s.setTask e { task with aborted := true } else s)
  | .deleteExportRecord d e persisted =>
    if (s.deletions d).isSome then none else some (s.deleteExportRecord d e persisted)
  | .unlink d removed =>
    match s.deletions d with
    | none => none
    | some deletion => if deletion.unlinked then none else some (s.unlink d deletion removed)
  | .splice d persisted =>
    match s.deletions d with
    | none => none
    | some deletion =>
      if deletion.unlinked then some (s.endDeletion d deletion persisted) else none
  | .loadAndPruneExportsFromKeyv persisted => some (s.loadAndPruneExportsFromKeyv persisted)

omit [DecidableEq E] [DecidableEq D] [DecidableEq P] in
theorem inPhase_eq_some {s t : State E D P} {e : E} {phase : Phase}
    {next : Export P → Option (State E D P)} : s.inPhase e phase next = some t ↔
      ∃ task, s.tasks e = some task ∧ task.phase = phase ∧ next task = some t := by
  unfold State.inPhase
  cases s.tasks e with
  | none => simp
  | some task => by_cases h : task.phase = phase <;> simp [h]

/-! ## The queue -/

/-- Chained and not over. -/
def Phase.isChained : Phase → Bool
  | .queued | .running | .recorded => true
  | .pushed | .ended => false

/-- The queue's callback has begun. -/
def Phase.isBegun : Phase → Bool
  | .running | .recorded => true
  | .pushed | .queued | .ended => false

structure Chain (tasks : E → Option (Export P)) (queue order : List E) : Prop where
  nodup : queue.Nodup
  chained : ∀ e, e ∈ queue ↔ ∃ task, tasks e = some task ∧ task.phase.isChained = true
  /-- One at a time. -/
  first : ∀ e task, tasks e = some task → task.phase.isBegun = true → queue.head? = some e
  /-- In the order of the chain. -/
  inOrder : ∃ done, order = done ++ queue ∧
    ∀ e ∈ done, ∃ task, tasks e = some task ∧ task.phase = .ended

section Chain

variable {tasks : E → Option (Export P)} {queue order : List E} {e : E} {task task' : Export P}

omit [DecidableEq P] in
/-- A task that stays as far as it is, or begins as the first. -/
theorem Chain.setTask (h : Chain tasks queue order) (htask : tasks e = some task)
    (hchained : task'.phase.isChained = task.phase.isChained)
    (hended : task.phase = .ended → task'.phase = .ended)
    (hfirst : task'.phase.isBegun = true → queue.head? = some e) :
    Chain (Function.update tasks e (some task')) queue order where
  nodup := h.nodup
  chained := fun d => by
    by_cases heq : d = e
    · subst heq
      simp [h.chained, htask, hchained]
    · simp [h.chained, heq]
  first := forall_update (fun x hx hbegun => by
    obtain rfl := Option.some.inj hx
    exact hfirst hbegun) fun d x _ hx => h.first d x hx
  inOrder := by
    obtain ⟨done, horder, hdone⟩ := h.inOrder
    refine ⟨done, horder, fun d hd => ?_⟩
    obtain ⟨x, hx, hphase⟩ := hdone d hd
    by_cases heq : d = e
    · subst heq
      rw [htask, Option.some.injEq] at hx
      subst hx
      exact ⟨task', Function.update_self .., hended hphase⟩
    · exact ⟨x, by rw [Function.update_of_ne heq, hx], hphase⟩

omit [DecidableEq P] in
theorem Chain.push (h : Chain tasks queue order) (hnew : tasks e = none)
    (hphase : task.phase = .pushed) :
    Chain (Function.update tasks e (some task)) queue order where
  nodup := h.nodup
  chained := fun d => by
    by_cases heq : d = e
    · subst heq
      simp [h.chained, hnew, hphase, Phase.isChained]
    · simp [h.chained, heq]
  first := forall_update (fun x hx hbegun => by
    obtain rfl := Option.some.inj hx
    rw [hphase] at hbegun
    cases hbegun) fun d x _ hx => h.first d x hx
  inOrder := by
    obtain ⟨done, horder, hdone⟩ := h.inOrder
    refine ⟨done, horder, fun d hd => ?_⟩
    obtain ⟨x, hx, hended⟩ := hdone d hd
    have hne : d ≠ e := fun heq => by rw [heq, hnew] at hx; cases hx
    exact ⟨x, by rw [Function.update_of_ne hne, hx], hended⟩

omit [DecidableEq P] in
theorem Chain.chain (h : Chain tasks queue order) (htask : tasks e = some task)
    (hphase : task.phase = .pushed) :
    Chain (Function.update tasks e (some { task with phase := .queued })) (queue ++ [e])
      (order ++ [e]) := by
  have hnot : e ∉ queue := by
    rw [h.chained, htask]
    simp [hphase, Phase.isChained]
  refine ⟨?_, fun d => ?_, forall_update (fun x hx hbegun => ?_) fun d x _ hx hbegun => ?_, ?_⟩
  · rw [List.nodup_append]
    exact ⟨h.nodup, List.nodup_singleton e, fun a ha b hb => by
      rw [List.mem_singleton.1 hb]
      exact fun heq => hnot (heq ▸ ha)⟩
  · by_cases heq : d = e
    · subst heq
      simp [Phase.isChained]
    · simp [h.chained, heq]
  · obtain rfl := Option.some.inj hx
    cases hbegun
  · rw [List.head?_append, h.first d x hx hbegun]
    rfl
  · obtain ⟨done, horder, hdone⟩ := h.inOrder
    refine ⟨done, by rw [horder, List.append_assoc], fun d hd => ?_⟩
    obtain ⟨x, hx, hended⟩ := hdone d hd
    have hne : d ≠ e := fun heq => by
      rw [heq, htask, Option.some.injEq] at hx
      rw [← hx, hphase] at hended
      cases hended
    exact ⟨x, by rw [Function.update_of_ne hne, hx], hended⟩

omit [DecidableEq P] in
/-- The first of the queue is over. -/
theorem Chain.leave (h : Chain tasks queue order) (htask : tasks e = some task)
    (hfirst : queue.head? = some e) :
    Chain (Function.update tasks e (some { task with phase := .ended })) queue.tail order := by
  obtain ⟨queue, rfl⟩ := List.head?_eq_some_iff.1 hfirst
  obtain ⟨hnot, hnodup⟩ := List.nodup_cons.1 h.nodup
  refine ⟨hnodup, fun d => ?_,
    forall_update (fun x hx hbegun => ?_) fun d x hne hx hbegun => ?_, ?_⟩
  · have hmem := h.chained d
    by_cases heq : d = e
    · subst heq
      simp [hnot, Phase.isChained]
    · simpa [heq] using hmem
  · obtain rfl := Option.some.inj hx
    cases hbegun
  · exact absurd (Option.some.inj (h.first d x hx hbegun)).symm hne
  · obtain ⟨done, horder, hdone⟩ := h.inOrder
    refine ⟨done ++ [e], by simpa using horder, fun d hd => ?_⟩
    by_cases heq : d = e
    · subst heq
      exact ⟨_, Function.update_self .., rfl⟩
    · rw [List.mem_append, List.mem_singleton, or_iff_left heq] at hd
      obtain ⟨x, hx, hended⟩ := hdone d hd
      exact ⟨x, by rw [Function.update_of_ne heq, hx], hended⟩

end Chain

section ChainStep

variable {s t : State E D P} {a : Action E D P} {e : E}
  {patch : CommunityExportRecord E P → CommunityExportRecord E P}

omit [DecidableEq D] [DecidableEq P] in
theorem patchFirst_of_not_any : ∀ {records : List (CommunityExportRecord E P)},
    records.any (·.exportId = e) = false → patchFirst e patch records = records
  | [], _ => rfl
  | r :: rest, h => by
    simp only [List.any_cons, Bool.or_eq_false_iff, decide_eq_false_iff_not] at h
    rw [patchFirst, if_neg h.1, patchFirst_of_not_any h.2]

omit [DecidableEq D] [DecidableEq P] in
/-- An update changes the records and what is stored of them, and nothing else. -/
theorem updateRecord_eq (persisted : Bool) : s.updateRecord e patch persisted =
    { s with
      exports := patchFirst e patch s.exports
      keyv := if persisted && s.exports.any (·.exportId = e) then patchFirst e patch s.exports
        else s.keyv } := by
  unfold State.updateRecord State.persistExports
  cases hany : s.exports.any (·.exportId = e) with
  | true => simp
  | false => simp [patchFirst_of_not_any hany]

omit [DecidableEq D] [DecidableEq P] in
theorem Chain.beginExport (h : Chain s.tasks s.exportQueue s.order) {task : Export P}
    (htask : s.tasks e = some task) (hphase : task.phase = .queued)
    (hfirst : s.exportQueue.head? = some e) {persisted : Bool}
    (ht : s.beginExport e task persisted = t) : Chain t.tasks t.exportQueue t.order := by
  subst ht
  unfold State.beginExport
  split
  · exact h.leave htask hfirst
  · split
    · exact h.leave htask hfirst
    · split
      · rw [updateRecord_eq]
        exact h.leave htask hfirst
      · exact h.setTask htask (by rw [hphase]; rfl) (by simp [hphase]) fun _ => hfirst

/-- **One at a time, in order**.  No guard is needed. -/
theorem Chain.step (h : Chain s.tasks s.exportQueue s.order) (hstep : step s a = some t) :
    Chain t.tasks t.exportQueue t.order := by
  cases a with
  | exportCommunity e destPath persisted =>
    simp only [ExportRecords.step] at hstep
    split at hstep
    · cases hstep
    · rename_i hnew
      cases hstep
      exact h.push (by simpa using hnew) rfl
  | chain e =>
    obtain ⟨task, htask, hphase, hnext⟩ := inPhase_eq_some.1 hstep
    obtain rfl := Option.some.inj hnext
    exact h.chain htask hphase
  | begin e persisted =>
    obtain ⟨task, htask, hphase, hnext⟩ := inPhase_eq_some.1 hstep
    split at hnext
    · rename_i hfirst
      exact h.beginExport htask hphase hfirst (Option.some.inj hnext)
    · cases hnext
  | progress e progress persisted =>
    obtain ⟨task, htask, hphase, hnext⟩ := inPhase_eq_some.1 hstep
    split at hnext
    · obtain rfl := Option.some.inj hnext
      rw [updateRecord_eq]
      exact h
    · cases hnext
  | finish e result persisted =>
    obtain ⟨task, htask, hphase, hnext⟩ := inPhase_eq_some.1 hstep
    have hfirst := h.first e task htask (by rw [hphase]; rfl)
    have hrecorded : Chain (Function.update s.tasks e (some { task with phase := .recorded }))
        s.exportQueue s.order :=
      h.setTask htask (by rw [hphase]; rfl) (by simp [hphase]) fun _ => hfirst
    rcases result with _ | ⟨size, sha256⟩ <;> obtain rfl := Option.some.inj hnext
    · rw [State.failExport, updateRecord_eq]
      exact hrecorded
    · rw [State.complete, updateRecord_eq]
      exact hrecorded
  | close e =>
    obtain ⟨task, htask, hphase, hnext⟩ := inPhase_eq_some.1 hstep
    obtain rfl := Option.some.inj hnext
    exact h.leave htask (h.first e task htask (by rw [hphase]; rfl))
  | cancelExport e =>
    simp only [ExportRecords.step] at hstep
    split at hstep
    · cases hstep
    · rename_i task htask
      cases hstep
      split
      · exact h.setTask htask rfl (fun hended => hended) (h.first e task htask)
      · exact h
  | deleteExportRecord d e persisted =>
    simp only [ExportRecords.step] at hstep
    split at hstep
    · cases hstep
    · cases hstep
      unfold State.deleteExportRecord
      split
      · exact h
      · split <;> exact h
  | unlink d removed =>
    simp only [ExportRecords.step] at hstep
    split at hstep
    · cases hstep
    · split at hstep
      · cases hstep
      · cases hstep
        exact h
  | splice d persisted =>
    simp only [ExportRecords.step] at hstep
    split at hstep
    · cases hstep
    · split at hstep
      · cases hstep
        exact h
      · cases hstep
  | loadAndPruneExportsFromKeyv persisted =>
    cases hstep
    unfold State.loadAndPruneExportsFromKeyv
    dsimp only
    split <;> exact h

/-- What the first of the queue does next; a backup returns or throws. -/
def Phase.next (e : E) : Phase → Action E D P
  | .queued => .begin e true
  | .running => .finish e none true
  | .recorded => .close e
  | .pushed | .ended => .chain e

/-- **Nothing blocks the queue**.  Whatever became of the exports before it, the first one can go
on. -/
theorem Chain.canGoOn (h : Chain s.tasks s.exportQueue s.order)
    (hfirst : s.exportQueue.head? = some e) :
    ∃ task, s.tasks e = some task ∧ (ExportRecords.step s (task.phase.next e)).isSome = true := by
  obtain ⟨task, htask, hchained⟩ := (h.chained e).1 (List.mem_of_mem_head? hfirst)
  refine ⟨task, htask, ?_⟩
  cases hphase : task.phase with
  | queued => simp [Phase.next, ExportRecords.step, State.inPhase, htask, hphase, hfirst]
  | running => simp [Phase.next, ExportRecords.step, State.inPhase, htask, hphase]
  | recorded => simp [Phase.next, ExportRecords.step, State.inPhase, htask, hphase]
  | pushed => simp [hphase, Phase.isChained] at hchained
  | ended => simp [hphase, Phase.isChained] at hchained

end ChainStep

/-! ## The records in the list -/

section Lists

variable {records : List (CommunityExportRecord E P)} {e : E}
  {patch : CommunityExportRecord E P → CommunityExportRecord E P}

omit [DecidableEq P] in
/-- Where ids are unique, the first record with an id is the only one. -/
theorem patchFirst_eq_map : ∀ {records : List (CommunityExportRecord E P)},
    (records.map (·.exportId)).Nodup →
    patchFirst e patch records = records.map fun r => if r.exportId = e then patch r else r
  | [], _ => rfl
  | r :: rest, h => by
    obtain ⟨hnot, hnodup⟩ := List.nodup_cons.1 h
    rw [patchFirst, List.map_cons]
    by_cases hr : r.exportId = e
    · rw [if_pos hr, if_pos hr]
      congr 1
      refine (List.map_id' rest).symm.trans (List.map_congr_left fun r' hr' => ?_)
      rw [if_neg fun heq => hnot (List.mem_map.2 ⟨r', hr', heq.trans hr.symm⟩)]
    · rw [if_neg hr, if_neg hr, patchFirst_eq_map hnodup]

omit [DecidableEq P] in
/-- Where ids are unique, the record at an index is removed with its id. -/
theorem eraseIdx_eq_filter (h : (records.map (·.exportId)).Nodup) {idx : Nat}
    {r : CommunityExportRecord E P} (hr : records[idx]? = some r) :
    records.eraseIdx idx = records.filter fun r' => r'.exportId ≠ r.exportId := by
  induction records generalizing idx with
  | nil => simp at hr
  | cons first rest ih =>
    obtain ⟨hnot, hnodup⟩ := List.nodup_cons.1 h
    cases idx with
    | zero =>
      obtain rfl : first = r := by simpa using hr
      rw [List.eraseIdx_cons_zero, List.filter_cons_of_neg (by simp)]
      refine (List.filter_eq_self.2 fun r' hr' => ?_).symm
      simpa using fun heq => hnot (List.mem_map.2 ⟨r', hr', heq⟩)
    | succ idx =>
      have hr' : rest[idx]? = some r := by simpa using hr
      have hne : first.exportId ≠ r.exportId := fun heq =>
        hnot (List.mem_map.2 ⟨r, List.mem_of_getElem? hr', heq.symm⟩)
      rw [List.eraseIdx_cons_succ, ih hnodup hr', List.filter_cons_of_pos (by simpa using hne)]

end Lists

/-! ## What is kept -/

/-- The outcome has been recorded. -/
def Phase.isOver : Phase → Bool
  | .recorded | .ended => true
  | .pushed | .queued | .running => false

/-- The record of an export says as much as is known of it. -/
def Fits (task : Export P) (r : CommunityExportRecord E P) : Prop :=
  if task.phase.isOver then r.Complete task.destPath ∨ r.Failed else r.Open

structure Listed (records : List (CommunityExportRecord E P)) (tasks : E → Option (Export P))
    (deleted : List E) : Prop where
  ids : (records.map (·.exportId)).Nodup
  fits : ∀ r ∈ records, ∃ task, tasks r.exportId = some task ∧ Fits task r
  listed : ∀ e task, tasks e = some task → e ∈ deleted ∨ ∃ r ∈ records, r.exportId = e
  gone : ∀ e ∈ deleted, (∃ task, tasks e = some task ∧ task.phase = .ended) ∧
    ∀ r ∈ records, r.exportId ≠ e
  /-- No two exports that have not failed share a path. -/
  paths : ∀ r ∈ records, ∀ r' ∈ records, r.error = none → r'.error = none →
    ∀ task task', tasks r.exportId = some task → tasks r'.exportId = some task' →
      task.destPath = task'.destPath → r.exportId = r'.exportId

section Listed

variable {records : List (CommunityExportRecord E P)} {tasks : E → Option (Export P)}
  {deleted : List E} {e : E} {task task' : Export P} {r : CommunityExportRecord E P}
  {patch : CommunityExportRecord E P → CommunityExportRecord E P}

omit [DecidableEq P] in
/-- An export goes on, with its record. -/
theorem Listed.goOn (h : Listed records tasks deleted) (htask : tasks e = some task)
    (hdest : task'.destPath = task.destPath) (hended : task.phase = .ended → task'.phase = .ended)
    (hid : ∀ r, (patch r).exportId = r.exportId)
    (herror : ∀ r, (patch r).error = none → r.error = none)
    (hfits : ∀ r, Fits task r → Fits task' (patch r)) :
    Listed (patchFirst e patch records) (Function.update tasks e (some task')) deleted := by
  rw [patchFirst_eq_map h.ids]
  have hid' : ∀ r : CommunityExportRecord E P,
      (if r.exportId = e then patch r else r).exportId = r.exportId := fun r => by
    split <;> simp [hid]
  have herror' : ∀ r : CommunityExportRecord E P,
      (if r.exportId = e then patch r else r).error = none → r.error = none := fun r hr => by
    split at hr
    · exact herror r hr
    · exact hr
  have htasks : ∀ d x, Function.update tasks e (some task') d = some x →
      ∃ y, tasks d = some y ∧ y.destPath = x.destPath := fun d x hx => by
    rcases update_eq_some.1 hx with ⟨heq, hx'⟩ | ⟨-, hx'⟩
    · obtain rfl := Option.some.inj hx'
      exact ⟨task, heq ▸ htask, hdest.symm⟩
    · exact ⟨x, hx', rfl⟩
  refine ⟨?_, fun r hmem => ?_, fun d x hx => ?_, fun d hd => ?_,
    fun r hmem r' hmem' hnone hnone' => ?_⟩
  · rw [List.map_map]
    exact (List.map_congr_left fun r _ => hid' r) ▸ h.ids
  · obtain ⟨r, hr, rfl⟩ := List.mem_map.1 hmem
    obtain ⟨x, hx, hfit⟩ := h.fits r hr
    rw [hid' r]
    by_cases heq : r.exportId = e
    · rw [heq, htask, Option.some.injEq] at hx
      subst hx
      exact ⟨task', by rw [heq, Function.update_self], by rw [if_pos heq]; exact hfits r hfit⟩
    · exact ⟨x, by rw [Function.update_of_ne heq, hx], by rw [if_neg heq]; exact hfit⟩
  · obtain ⟨y, hy, -⟩ := htasks d x hx
    refine (h.listed d y hy).imp_right fun ⟨r, hr, hrid⟩ => ?_
    exact ⟨_, List.mem_map_of_mem hr, (hid' r).trans hrid⟩
  · obtain ⟨⟨x, hx, hphase⟩, hnone⟩ := h.gone d hd
    refine ⟨?_, fun r hmem => ?_⟩
    · by_cases heq : d = e
      · rw [heq, htask, Option.some.injEq] at hx
        subst hx
        exact ⟨task', by rw [heq, Function.update_self], hended hphase⟩
      · exact ⟨x, by rw [Function.update_of_ne heq, hx], hphase⟩
    · obtain ⟨r, hr, rfl⟩ := List.mem_map.1 hmem
      rw [hid' r]
      exact hnone r hr
  · obtain ⟨r, hr, rfl⟩ := List.mem_map.1 hmem
    obtain ⟨r', hr', rfl⟩ := List.mem_map.1 hmem'
    rw [hid' r, hid' r']
    intro x x' hx hx' hpath
    obtain ⟨y, hy, hydest⟩ := htasks _ x hx
    obtain ⟨y', hy', hydest'⟩ := htasks _ x' hx'
    exact h.paths r hr r' hr' (herror' r hnone) (herror' r' hnone') y y' hy hy'
      (by rw [hydest, hydest', hpath])

omit [DecidableEq P] in
theorem Listed.push (h : Listed records tasks deleted) (hnew : tasks e = none)
    (hphase : task.phase = .pushed) (hid : r.exportId = e) (hopen : r.Open)
    (hpath : ∀ r' ∈ records, r'.error = none → ∀ task', tasks r'.exportId = some task' →
      task'.destPath ≠ task.destPath) :
    Listed (records ++ [r]) (Function.update tasks e (some task)) deleted := by
  have hne : ∀ r' ∈ records, r'.exportId ≠ e := fun r' hr' heq => by
    obtain ⟨x, hx, -⟩ := h.fits r' hr'
    rw [heq, hnew] at hx
    cases hx
  have hold : ∀ r' ∈ records, ∀ x,
      Function.update tasks e (some task) r'.exportId = some x → tasks r'.exportId = some x :=
    fun r' hr' x hx => by rwa [Function.update_of_ne (hne r' hr')] at hx
  refine ⟨?_, fun r' hr' => ?_, fun d x hx => ?_, fun d hd => ?_, fun r₁ hr₁ r₂ hr₂ => ?_⟩
  · rw [List.map_append, List.nodup_append]
    refine ⟨h.ids, List.nodup_singleton _, fun a ha b hb => ?_⟩
    obtain ⟨r', hr', rfl⟩ := List.mem_map.1 ha
    obtain rfl : b = r.exportId := by simpa using hb
    rw [hid]
    exact hne r' hr'
  · rcases List.mem_append.1 hr' with hr' | hr'
    · obtain ⟨x, hx, hfit⟩ := h.fits r' hr'
      exact ⟨x, by rw [Function.update_of_ne (hne r' hr'), hx], hfit⟩
    · obtain rfl := List.mem_singleton.1 hr'
      refine ⟨task, by rw [hid, Function.update_self], ?_⟩
      rw [Fits, hphase]
      exact hopen
  · rcases update_eq_some.1 hx with ⟨rfl, -⟩ | ⟨-, hx⟩
    · exact .inr ⟨r, by simp, hid⟩
    · exact (h.listed d x hx).imp_right fun ⟨r', hr', hrid⟩ => ⟨r', by simp [hr'], hrid⟩
  · obtain ⟨⟨x, hx, hended⟩, hnone⟩ := h.gone d hd
    have hd' : d ≠ e := fun heq => by rw [heq, hnew] at hx; cases hx
    refine ⟨⟨x, by rw [Function.update_of_ne hd', hx], hended⟩, fun r' hr' => ?_⟩
    rcases List.mem_append.1 hr' with hr' | hr'
    · exact hnone r' hr'
    · obtain rfl := List.mem_singleton.1 hr'
      rw [hid]
      exact hd'.symm
  · intro herr₁ herr₂ x x' hx hx' hdest
    rcases List.mem_append.1 hr₁ with hmem₁ | hlast₁ <;>
      rcases List.mem_append.1 hr₂ with hmem₂ | hlast₂
    · exact h.paths r₁ hmem₁ r₂ hmem₂ herr₁ herr₂ x x' (hold r₁ hmem₁ x hx)
        (hold r₂ hmem₂ x' hx') hdest
    · rw [List.mem_singleton.1 hlast₂, hid, Function.update_self, Option.some.injEq] at hx'
      exact absurd (hdest.trans (by rw [hx'])) (hpath r₁ hmem₁ herr₁ x (hold r₁ hmem₁ x hx))
    · rw [List.mem_singleton.1 hlast₁, hid, Function.update_self, Option.some.injEq] at hx
      exact absurd (hdest.symm.trans (by rw [hx])) (hpath r₂ hmem₂ herr₂ x' (hold r₂ hmem₂ x' hx'))
    · rw [List.mem_singleton.1 hlast₁, List.mem_singleton.1 hlast₂]

omit [DecidableEq P] in
theorem Listed.erase (h : Listed records tasks deleted) (htask : tasks e = some task)
    (hphase : task.phase = .ended) :
    Listed (records.filter fun r => r.exportId ≠ e) tasks (e :: deleted) := by
  refine ⟨h.ids.sublist (List.filter_sublist.map _), fun r hr => ?_, fun d x hx => ?_,
    fun d hd => ?_, fun r hr r' hr' => ?_⟩
  · exact h.fits r (List.mem_filter.1 hr).1
  · by_cases heq : d = e
    · exact .inl (heq ▸ List.mem_cons_self)
    · rcases h.listed d x hx with hd | ⟨r, hr, hrid⟩
      · exact .inl (List.mem_cons_of_mem _ hd)
      · exact .inr ⟨r, List.mem_filter.2 ⟨hr, by simpa [hrid] using heq⟩, hrid⟩
  · rcases List.mem_cons.1 hd with rfl | hd
    · exact ⟨⟨task, htask, hphase⟩, fun r hr => by simpa using (List.mem_filter.1 hr).2⟩
    · exact ⟨(h.gone d hd).1, fun r hr => (h.gone d hd).2 r (List.mem_filter.1 hr).1⟩
  · exact h.paths r (List.mem_filter.1 hr).1 r' (List.mem_filter.1 hr').1

end Listed

/-- The abort controllers of the exports that are chained and not over. -/
structure Handles (tasks : E → Option (Export P)) (queue : List E) (active : E → Bool) : Prop where
  active : ∀ e, active e = true ↔ e ∈ queue
  notAborted : ∀ e task, tasks e = some task → task.phase = .pushed ∨ task.phase = .queued →
    task.aborted = false

/-- The files of the complete exports, and the one deletion that may be removing one. -/
structure Stored (records : List (CommunityExportRecord E P)) (tasks : E → Option (Export P))
    (deletions : D → Option (Deletion E P)) (onDisk : P → Bool) : Prop where
  alone : ∀ d x d' x', deletions d = some x → deletions d' = some x' → d = d'
  deleting : ∀ d x, deletions d = some x → ∃ r, records[x.idx]? = some r ∧
    r.exportId = x.exportId ∧ r.url = some x.url ∧
    ∃ task, tasks x.exportId = some task ∧ task.phase = .ended
  files : ∀ r ∈ records, ∀ path, r.url = some path → onDisk path = true ∨
    ∃ d x, deletions d = some x ∧ x.exportId = r.exportId ∧ x.unlinked = true
  unlinked : ∀ d x, deletions d = some x → x.unlinked = true → onDisk x.url = false

structure Records (s : State E D P) : Prop where
  chain : Chain s.tasks s.exportQueue s.order
  listed : Listed s.exports s.tasks s.deleted
  handles : Handles s.tasks s.exportQueue s.activeExports
  stored : Stored s.exports s.tasks s.deletions s.files
  saved : s.keyv = s.exports

/-- The guard.  Every write to the database and every removal of a file succeeds; an export goes to
a path of its own; one that waits in the queue is not cancelled; a record is deleted when its export
is over and no other deletion is under way; and the records are read back when nothing is under
way. -/
def Apart (s : State E D P) : Action E D P → Prop
  | .exportCommunity _ destPath persisted => persisted = true ∧
    ∀ r ∈ s.exports, r.error = none → ∀ task, s.tasks r.exportId = some task →
      task.destPath ≠ destPath
  | .begin _ persisted | .progress _ _ persisted | .finish _ _ persisted
  | .splice _ persisted => persisted = true
  | .cancelExport e => ∀ task, s.tasks e = some task → task.phase ≠ .queued
  | .deleteExportRecord _ e persisted => persisted = true ∧ (∀ d, s.deletions d = none) ∧
    ∀ task, s.tasks e = some task → task.phase = .ended
  | .loadAndPruneExportsFromKeyv _ => (∀ d, s.deletions d = none) ∧
    ∀ e task, s.tasks e = some task → task.phase = .ended
  | .unlink _ removed => removed = true
  | .chain _ | .close _ => True

section Stored

variable {records : List (CommunityExportRecord E P)} {tasks : E → Option (Export P)}
  {deletions : D → Option (Deletion E P)} {files files' : P → Bool} {deleted : List E} {e : E}
  {d : D} {x : Deletion E P} {task task' : Export P} {r : CommunityExportRecord E P}
  {patch : CommunityExportRecord E P → CommunityExportRecord E P}

omit [DecidableEq E] [DecidableEq P] in
/-- A record with a file is that of an export that is complete. -/
theorem Listed.complete_of_url (h : Listed records tasks deleted) (hr : r ∈ records) {path : P}
    (hurl : r.url = some path) :
    ∃ task, tasks r.exportId = some task ∧ r.Complete task.destPath ∧ task.destPath = path := by
  obtain ⟨task, htask, hfit⟩ := h.fits r hr
  rw [Fits] at hfit
  split at hfit
  · rcases hfit with hcomplete | hfailed
    · exact ⟨task, htask, hcomplete, Option.some.inj (hcomplete.url.symm.trans hurl)⟩
    · rw [hfailed.url] at hurl
      cases hurl
  · rw [hfit.url] at hurl
    cases hurl

omit [DecidableEq E] [DecidableEq P] in
/-- A file belongs to one record. -/
theorem Listed.eq_of_url (h : Listed records tasks deleted) {r' : CommunityExportRecord E P}
    (hr : r ∈ records) (hr' : r' ∈ records) {path : P} (hurl : r.url = some path)
    (hurl' : r'.url = some path) : r.exportId = r'.exportId := by
  obtain ⟨task, htask, hcomplete, hdest⟩ := h.complete_of_url hr hurl
  obtain ⟨task', htask', hcomplete', hdest'⟩ := h.complete_of_url hr' hurl'
  exact h.paths r hr r' hr' hcomplete.error hcomplete'.error task task' htask htask'
    (hdest.trans hdest'.symm)

omit [DecidableEq D] [DecidableEq P] in
theorem Stored.goOn (h : Stored records tasks deletions files)
    (hlisted : Listed records tasks deleted) (htask : tasks e = some task)
    (hphase : task.phase ≠ .ended) (hfiles : ∀ path, files path = true → files' path = true)
    (hurl : ∀ r ∈ records, r.exportId = e → ∀ path, (patch r).url = some path →
      files' path = true)
    (hgone : ∀ r ∈ records, r.exportId ≠ e → ∀ path, r.url = some path → files path = false →
      files' path = false) :
    Stored (patchFirst e patch records) (Function.update tasks e (some task')) deletions
      files' := by
  rw [patchFirst_eq_map hlisted.ids]
  have hother : ∀ d x, deletions d = some x → x.exportId ≠ e := fun d x hx heq => by
    obtain ⟨-, -, -, -, y, hy, hended⟩ := h.deleting d x hx
    rw [heq, htask, Option.some.injEq] at hy
    exact hphase (hy ▸ hended)
  refine ⟨h.alone, fun d x hx => ?_, fun r hmem path hpath => ?_, fun d x hx hunlinked => ?_⟩
  · obtain ⟨r, hr, hrid, hrurl, y, hy, hended⟩ := h.deleting d x hx
    have hne := hother d x hx
    refine ⟨r, ?_, hrid, hrurl, y, by rw [Function.update_of_ne hne, hy], hended⟩
    rw [List.getElem?_map, hr, Option.map_some, if_neg (hrid ▸ hne)]
  · obtain ⟨r, hr, rfl⟩ := List.mem_map.1 hmem
    by_cases heq : r.exportId = e
    · rw [if_pos heq] at hpath
      exact .inl (hurl r hr heq path hpath)
    · rw [if_neg heq] at hpath ⊢
      exact (h.files r hr path hpath).imp_left (hfiles path)
  · obtain ⟨r, hr, hrid, hrurl, -⟩ := h.deleting d x hx
    exact hgone r (List.mem_of_getElem? hr) (hrid ▸ hother d x hx) x.url hrurl
      (h.unlinked d x hx hunlinked)

omit [DecidableEq D] [DecidableEq P] in
theorem Stored.push (h : Stored records tasks deletions files) (hnew : tasks e = none)
    (hopen : r.Open) :
    Stored (records ++ [r]) (Function.update tasks e (some task)) deletions files := by
  refine ⟨h.alone, fun d x hx => ?_, fun r' hr' path hpath => ?_, h.unlinked⟩
  · obtain ⟨r', hr', hrid, hrurl, y, hy, hended⟩ := h.deleting d x hx
    have hne : x.exportId ≠ e := fun heq => by rw [heq, hnew] at hy; cases hy
    have hlt : x.idx < records.length := (List.getElem?_eq_some_iff.1 hr').1
    exact ⟨r', by rw [List.getElem?_append_left hlt, hr'], hrid, hrurl, y,
      by rw [Function.update_of_ne hne, hy], hended⟩
  · rcases List.mem_append.1 hr' with hr' | hr'
    · exact h.files r' hr' path hpath
    · rw [List.mem_singleton.1 hr', hopen.url] at hpath
      cases hpath

omit [DecidableEq E] in
theorem Stored.unlink (h : Stored records tasks deletions files)
    (hlisted : Listed records tasks deleted) (hx : deletions d = some x) :
    Stored records tasks (Function.update deletions d (some { x with unlinked := true }))
      (Function.update files x.url false) := by
  obtain ⟨r₀, hr₀, hid₀, hurl₀, hended₀⟩ := h.deleting d x hx
  have hself : Function.update deletions d (some { x with unlinked := true }) d =
      some { x with unlinked := true } := Function.update_self ..
  have honly : ∀ d' x', deletions d' = some x' → d' = d := fun d' x' hx' =>
    h.alone d' x' d x hx' hx
  refine ⟨fun d₁ x₁ d₂ x₂ h₁ h₂ => ?_, fun d' x' hx' => ?_, fun r hr path hpath => ?_,
    fun d' x' hx' _ => ?_⟩
  · have hone : ∀ d' x', Function.update deletions d (some { x with unlinked := true }) d' =
        some x' → d' = d := fun d' x' hx' =>
      (update_eq_some.1 hx').elim (·.1) fun hne => honly d' x' hne.2
    rw [hone d₁ x₁ h₁, hone d₂ x₂ h₂]
  · rcases update_eq_some.1 hx' with ⟨-, hx'⟩ | ⟨hne, hx'⟩
    · obtain rfl := Option.some.inj hx'
      exact ⟨r₀, hr₀, hid₀, hurl₀, hended₀⟩
    · exact absurd (honly d' x' hx') hne
  · by_cases heq : path = x.url
    · -- the file is the one of the deleted record
      have hsame := hlisted.eq_of_url hr (List.mem_of_getElem? hr₀) hpath (heq ▸ hurl₀)
      exact .inr ⟨d, _, hself, by rw [hsame, hid₀], rfl⟩
    · rw [Function.update_of_ne heq]
      refine (h.files r hr path hpath).imp_right fun ⟨d', x', hx', hid, _⟩ => ?_
      obtain rfl := honly d' x' hx'
      obtain rfl := Option.some.inj (hx.symm.trans hx')
      exact ⟨_, _, hself, hid, rfl⟩
  · rcases update_eq_some.1 hx' with ⟨-, hx'⟩ | ⟨hne, hx'⟩
    · obtain rfl := Option.some.inj hx'
      exact Function.update_self ..
    · exact absurd (honly d' x' hx') hne

omit [DecidableEq P] in
theorem Stored.erase (h : Stored records tasks deletions files) (hx : deletions d = some x) :
    Stored (records.filter fun r => r.exportId ≠ x.exportId) tasks
      (Function.update deletions d none) files := by
  have hnone : ∀ d', Function.update deletions d none d' = none := fun d' => by
    by_cases heq : d' = d
    · rw [heq, Function.update_self]
    · rw [Function.update_of_ne heq]
      by_contra hsome
      obtain ⟨x', hx'⟩ := Option.ne_none_iff_exists'.1 hsome
      exact heq (h.alone d' x' d x hx' hx)
  refine ⟨fun d₁ x₁ d₂ x₂ h₁ => ?_, fun d' x' hx' => ?_, fun r hr path hpath => ?_,
    fun d' x' hx' => ?_⟩
  · rw [hnone] at h₁
    cases h₁
  · rw [hnone] at hx'
    cases hx'
  · obtain ⟨hr, hne⟩ := List.mem_filter.1 hr
    refine .inl ((h.files r hr path hpath).resolve_right fun ⟨d', x', hx', hid, _⟩ => ?_)
    obtain rfl := h.alone d' x' d x hx' hx
    obtain rfl := Option.some.inj (hx.symm.trans hx')
    simp [hid] at hne
  · rw [hnone] at hx'
    cases hx'

end Stored

section Handles

variable {tasks : E → Option (Export P)} {queue : List E} {active : E → Bool} {e : E}
  {task : Export P}

omit [DecidableEq P] in
theorem Handles.setTask (h : Handles tasks queue active)
    (hpending : task.phase = .pushed ∨ task.phase = .queued → task.aborted = false) :
    Handles (Function.update tasks e (some task)) queue active where
  active := h.active
  notAborted := forall_update (fun x hx hphase => by
    obtain rfl := Option.some.inj hx
    exact hpending hphase) fun d x _ hx => h.notAborted d x hx

omit [DecidableEq P] in
theorem Handles.chain (h : Handles tasks queue active) :
    Handles tasks (queue ++ [e]) (Function.update active e true) where
  active := fun d => by
    by_cases heq : d = e
    · simp [heq]
    · simp [heq, h.active d]
  notAborted := h.notAborted

omit [DecidableEq P] in
theorem Handles.close (h : Handles tasks queue active) (hnodup : queue.Nodup)
    (hfirst : queue.head? = some e) :
    Handles tasks queue.tail (Function.update active e false) where
  active := fun d => by
    obtain ⟨queue, rfl⟩ := List.head?_eq_some_iff.1 hfirst
    have hnot := (List.nodup_cons.1 hnodup).1
    by_cases heq : d = e
    · simp [heq, hnot]
    · simp [heq, h.active d]
  notAborted := h.notAborted

end Handles

/-! ## One step -/

section Step

variable {s t : State E D P} {e : E} {task : Export P}

omit [DecidableEq D] [DecidableEq P] in
/-- An update that finds its record, and is written. -/
theorem updateRecord_of_mem {patch : CommunityExportRecord E P → CommunityExportRecord E P}
    (h : ∃ r ∈ s.exports, r.exportId = e) : s.updateRecord e patch true =
      { s with exports := patchFirst e patch s.exports, keyv := patchFirst e patch s.exports } := by
  have hany : s.exports.any (·.exportId = e) = true := by
    obtain ⟨r, hr, hid⟩ := h
    exact List.any_eq_true.2 ⟨r, hr, by simpa using hid⟩
  rw [updateRecord_eq, hany]
  rfl

omit [DecidableEq E] [DecidableEq D] [DecidableEq P] in
/-- An export that is not over has a record. -/
theorem Records.exists_of_not_ended (h : Records s) (htask : s.tasks e = some task)
    (hphase : task.phase ≠ .ended) : ∃ r ∈ s.exports, r.exportId = e := by
  refine (h.listed.listed e task htask).resolve_left fun hdeleted => hphase ?_
  obtain ⟨⟨x, hx, hended⟩, -⟩ := h.listed.gone e hdeleted
  rw [htask, Option.some.injEq] at hx
  exact hx ▸ hended

omit [DecidableEq E] [DecidableEq D] [DecidableEq P] in
/-- The record of an export that is not over and has no outcome yet. -/
theorem Records.open (h : Records s) (htask : s.tasks e = some task)
    (hphase : task.phase.isOver = false) : ∀ r ∈ s.exports, r.exportId = e → r.Open := by
  intro r hr hid
  obtain ⟨x, hx, hfit⟩ := h.listed.fits r hr
  rw [hid, htask, Option.some.injEq] at hx
  subst hx
  simpa [Fits, hphase] using hfit

omit [DecidableEq D] [DecidableEq P] in
theorem Records.push (h : Records s) (hnew : s.tasks e = none) {destPath : P}
    (hpath : ∀ r ∈ s.exports, r.error = none → ∀ task, s.tasks r.exportId = some task →
      task.destPath ≠ destPath) : Records (s.push e destPath true) where
  chain := h.chain.push hnew rfl
  listed := h.listed.push hnew rfl rfl ⟨rfl, rfl⟩ hpath
  handles := h.handles.setTask fun _ => rfl
  stored := h.stored.push hnew ⟨rfl, rfl⟩
  saved := rfl

omit [DecidableEq D] [DecidableEq P] in
/-- An export goes on with an update of its record that is written. -/
theorem Records.goOn (h : Records s) (htask : s.tasks e = some task)
    (hphase : task.phase ≠ .ended) {task' : Export P} {files : P → Bool}
    {patch : CommunityExportRecord E P → CommunityExportRecord E P}
    (hchain : Chain (Function.update s.tasks e (some task')) s.exportQueue s.order)
    (hpending : task'.phase = .pushed ∨ task'.phase = .queued → task'.aborted = false)
    (hdest : task'.destPath = task.destPath)
    (hid : ∀ r, (patch r).exportId = r.exportId)
    (herror : ∀ r, (patch r).error = none → r.error = none)
    (hfits : ∀ r, Fits task r → Fits task' (patch r))
    (hfiles : ∀ path, s.files path = true → files path = true)
    (hurl : ∀ r ∈ s.exports, r.exportId = e → ∀ path, (patch r).url = some path →
      files path = true)
    (hgone : ∀ r ∈ s.exports, r.exportId ≠ e → ∀ path, r.url = some path → s.files path = false →
      files path = false) :
    Records ({ s.setTask e task' with files := files }.updateRecord e patch true) := by
  have hmem := h.exists_of_not_ended htask hphase
  rw [updateRecord_of_mem (s := { s.setTask e task' with files := files }) hmem]
  exact ⟨hchain, h.listed.goOn htask hdest (fun hended => absurd hended hphase) hid herror hfits,
    h.handles.setTask hpending, h.stored.goOn h.listed htask hphase hfiles hurl hgone, rfl⟩

omit [DecidableEq D] [DecidableEq P] in
theorem patchFirst_id : ∀ {records : List (CommunityExportRecord E P)},
    patchFirst e (fun r => r) records = records
  | [] => rfl
  | r :: rest => by
    rw [patchFirst, patchFirst_id]
    split <;> rfl

omit [DecidableEq D] [DecidableEq P] in
/-- An export goes on and leaves its record alone. -/
theorem Records.setTask (h : Records s) (htask : s.tasks e = some task)
    (hphase : task.phase ≠ .ended) (task' : Export P) (hdest : task'.destPath = task.destPath)
    (hover : task'.phase.isOver = task.phase.isOver) :
    Listed s.exports (Function.update s.tasks e (some task')) s.deleted ∧
      Stored s.exports (Function.update s.tasks e (some task')) s.deletions s.files := by
  have hlisted : Listed (patchFirst e (fun r => r) s.exports)
      (Function.update s.tasks e (some task')) s.deleted :=
    h.listed.goOn htask hdest (fun hended => absurd hended hphase) (fun _ => rfl) (fun _ hr => hr)
      fun r hfit => by simpa only [Fits, hover, hdest] using hfit
  rw [patchFirst_id] at hlisted
  refine ⟨hlisted, h.stored.alone, fun d x hx => ?_, h.stored.files, h.stored.unlinked⟩
  obtain ⟨r, hr, hid, hurl, y, hy, hended⟩ := h.stored.deleting d x hx
  have hne : x.exportId ≠ e := fun heq => by
    rw [heq, htask, Option.some.injEq] at hy
    exact hphase (hy ▸ hended)
  exact ⟨r, hr, hid, hurl, y, by rw [Function.update_of_ne hne, hy], hended⟩

omit [DecidableEq D] [DecidableEq P] in
theorem Records.beginExport (h : Records s) (htask : s.tasks e = some task)
    (hphase : task.phase = .queued) (hfirst : s.exportQueue.head? = some e) :
    Records (s.beginExport e task true) := by
  obtain ⟨r, hr, hid⟩ := h.exists_of_not_ended htask (by simp [hphase])
  have hopen := h.open htask (by rw [hphase]; rfl)
  have haborted := h.handles.notAborted e task htask (.inr hphase)
  have hchain : Chain (s.beginExport e task true).tasks (s.beginExport e task true).exportQueue
      (s.beginExport e task true).order := h.chain.beginExport htask hphase hfirst rfl
  have hbegin : s.beginExport e task true = s.setTask e { task with phase := .running } := by
    unfold State.beginExport
    split
    · rename_i hnone
      exact absurd hid (by simpa using List.find?_eq_none.1 hnone r hr)
    · rename_i current hcurrent
      have herror := (hopen current (List.mem_of_find?_eq_some hcurrent)
        (by simpa using List.find?_some hcurrent)).error
      rw [if_neg (by simp [herror]), if_neg (by simp [haborted])]
  rw [hbegin] at hchain ⊢
  obtain ⟨hlisted, hstored⟩ := h.setTask htask (by simp [hphase])
    { task with phase := .running } rfl (by simp [hphase, Phase.isOver])
  exact ⟨hchain, hlisted, h.handles.setTask (by simp), hstored, h.saved⟩

omit [DecidableEq D] in
/-- The outcome of a backup. -/
theorem Records.complete (h : Records s) (htask : s.tasks e = some task)
    (hphase : task.phase = .running) (size : Nat) (sha256 : String) :
    Records (s.complete e task size sha256 true) := by
  refine h.goOn htask (by simp [hphase]) ?_ (by simp) rfl (fun _ => rfl)
    (fun _ hr => hr) ?_ ?_ ?_ ?_
  · exact h.chain.setTask htask (by rw [hphase]; rfl) (by simp [hphase])
      fun _ => h.chain.first e task htask (by rw [hphase]; rfl)
  · intro r hfit
    rw [Fits, hphase] at hfit
    exact .inl ⟨rfl, rfl, rfl, rfl, hfit.error⟩
  · intro path hpath
    by_cases heq : path = task.destPath
    · rw [heq, Function.update_self]
    · rw [Function.update_of_ne heq, hpath]
  · intro r _ _ path hpath
    obtain rfl := Option.some.inj hpath
    exact Function.update_self ..
  · -- the path is that of no other export that is complete
    intro r hr hne path hurl hpath
    obtain ⟨own, hown, hid⟩ := h.exists_of_not_ended htask (by simp [hphase])
    obtain ⟨other, hother, hcomplete, hdest⟩ := h.listed.complete_of_url hr hurl
    have hpaths : path ≠ task.destPath := fun heq => by
      refine hne ((h.listed.paths r hr own hown hcomplete.error ?_ other task hother ?_ ?_).trans hid)
      · exact (h.open htask (by rw [hphase]; rfl) own hown hid).error
      · rw [hid, htask]
      · rw [hdest, heq]
    rw [Function.update_of_ne hpaths, hpath]

omit [DecidableEq D] [DecidableEq P] in
theorem Records.failExport (h : Records s) (htask : s.tasks e = some task)
    (hphase : task.phase = .running) : Records (s.failExport e task true) := by
  refine h.goOn htask (by simp [hphase]) ?_ (by simp) rfl (fun _ => rfl) (by simp) ?_
    (fun _ hpath => hpath) ?_ fun _ _ _ _ _ hpath => hpath
  · exact h.chain.setTask htask (by rw [hphase]; rfl) (by simp [hphase])
      fun _ => h.chain.first e task htask (by rw [hphase]; rfl)
  · intro r hfit
    rw [Fits, hphase] at hfit
    exact .inr ⟨hfit.url, rfl⟩
  · intro r hr hid path hpath
    rw [(h.open htask (by rw [hphase]; rfl) r hr hid).url] at hpath
    cases hpath

omit [DecidableEq D] [DecidableEq P] in
theorem Records.progress (h : Records s) (htask : s.tasks e = some task)
    (hphase : task.phase = .running) (progress : Nat) :
    Records (s.updateRecord e (fun r => { r with progress := progress }) true) := by
  have hsame : Function.update s.tasks e (some task) = s.tasks := by
    rw [← htask, Function.update_eq_self]
  have hgo : Records ((s.setTask e task).updateRecord e
      (fun r => { r with progress := progress }) true) := by
    refine h.goOn htask (by simp [hphase]) (by rw [hsame]; exact h.chain) (by simp [hphase]) rfl
      (fun _ => rfl) (fun _ hr => hr) ?_ (fun _ hpath => hpath) ?_ fun _ _ _ _ _ hpath => hpath
    · intro r hfit
      rw [Fits, hphase] at hfit ⊢
      exact ⟨hfit.url, hfit.error⟩
    · intro r hr hid path hpath
      rw [(h.open htask (by rw [hphase]; rfl) r hr hid).url] at hpath
      cases hpath
  rwa [State.setTask, hsame] at hgo

omit [DecidableEq D] [DecidableEq P] in
theorem Records.chained (h : Records s) (htask : s.tasks e = some task)
    (hphase : task.phase = .pushed) : Records (s.chain e task) := by
  obtain ⟨hlisted, hstored⟩ := h.setTask htask (by simp [hphase])
    { task with phase := .queued } rfl (by simp [hphase, Phase.isOver])
  have haborted := h.handles.notAborted e task htask (.inl hphase)
  have hhandles : Handles (Function.update s.tasks e (some { task with phase := .queued }))
      s.exportQueue s.activeExports := h.handles.setTask fun _ => haborted
  exact ⟨h.chain.chain htask hphase, hlisted, hhandles.chain, hstored, h.saved⟩

omit [DecidableEq D] [DecidableEq P] in
theorem Records.closed (h : Records s) (htask : s.tasks e = some task)
    (hphase : task.phase = .recorded) : Records (s.close e task) := by
  obtain ⟨hlisted, hstored⟩ := h.setTask htask (by simp [hphase])
    { task with phase := .ended } rfl (by simp [hphase, Phase.isOver])
  have hfirst := h.chain.first e task htask (by rw [hphase]; rfl)
  exact ⟨h.chain.leave htask hfirst, hlisted,
    (h.handles.setTask (by simp)).close h.chain.nodup hfirst, hstored, h.saved⟩

omit [DecidableEq D] [DecidableEq P] in
theorem Records.cancelExport (h : Records s) (htask : s.tasks e = some task)
    (hphase : task.phase ≠ .queued) (hactive : s.activeExports e = true) :
    Records (s.setTask e { task with aborted := true }) := by
  obtain ⟨x, hx, hchained⟩ := (h.chain.chained e).1 ((h.handles.active e).1 hactive)
  obtain rfl := Option.some.inj (htask.symm.trans hx)
  have hended : task.phase ≠ .ended := fun hended => by simp [hended, Phase.isChained] at hchained
  have hpushed : task.phase ≠ .pushed := fun hpushed => by
    simp [hpushed, Phase.isChained] at hchained
  obtain ⟨hlisted, hstored⟩ := h.setTask htask hended { task with aborted := true } rfl rfl
  exact ⟨h.chain.setTask htask rfl (fun h => h) (h.chain.first e task htask), hlisted,
    h.handles.setTask fun hpending => absurd hpending (not_or.2 ⟨hpushed, hphase⟩), hstored,
    h.saved⟩

omit [DecidableEq P] in
/-- The record at the index goes. -/
theorem Records.erase (h : Records s) {d : D} {x : Deletion E P} (hx : s.deletions d = some x) :
    Records (s.endDeletion d x true) ∧
      (s.endDeletion d x true).exports = s.exports.filter fun r => r.exportId ≠ x.exportId := by
  obtain ⟨r, hr, hid, -, y, hy, hended⟩ := h.stored.deleting d x hx
  have herase := eraseIdx_eq_filter h.listed.ids hr
  rw [hid] at herase
  refine ⟨⟨h.chain, ?_, h.handles, ?_, rfl⟩, herase⟩
  · show Listed (s.exports.eraseIdx x.idx) _ _
    rw [herase]
    exact h.listed.erase hy hended
  · show Stored (s.exports.eraseIdx x.idx) _ _ _
    rw [herase]
    exact h.stored.erase hx

omit [DecidableEq E] [DecidableEq D] [DecidableEq P] in
/-- What is read back is what is there. -/
theorem Records.loadAndPrune (h : Records s) (hdeletions : ∀ d, s.deletions d = none)
    (hended : ∀ e task, s.tasks e = some task → task.phase = .ended) (persisted : Bool) :
    s.loadAndPruneExportsFromKeyv persisted = s := by
  have hkept : s.keyv.filter (isKept s.files) = s.keyv := by
    refine List.filter_eq_self.2 fun r hr => ?_
    rw [h.saved] at hr
    obtain ⟨task, htask, hfit⟩ := h.listed.fits r hr
    rw [Fits, hended _ task htask] at hfit
    rcases hfit with hcomplete | hfailed
    · have hfile := (h.stored.files r hr _ hcomplete.url).resolve_right
        fun ⟨d, x, hx, _⟩ => by simp [hdeletions d] at hx
      simp [isKept, hcomplete.progress, hcomplete.url, hfile]
    · simp [isKept, hfailed.url, hfailed.error]
  unfold State.loadAndPruneExportsFromKeyv
  simp only [hkept, if_true]
  exact congrArg (fun records => { s with exports := records }) h.saved

/-- What a call of `deleteExportRecord` has done when it is over, or waits for `unlink`. -/
inductive Called (s : State E D P) (d : D) (e : E) (t : State E D P) : Prop
  | unlisted (hnone : ∀ r ∈ s.exports, r.exportId ≠ e) (ht : t = s)
  | removed (r : CommunityExportRecord E P) (hr : r ∈ s.exports) (hid : r.exportId = e)
      (hurl : r.url = none) (hexports : t.exports = s.exports.filter fun r => r.exportId ≠ e)
  | waits (r : CommunityExportRecord E P) (hr : r ∈ s.exports) (hid : r.exportId = e)
      (x : Deletion E P) (hurl : r.url = some x.url) (hx : t.deletions d = some x)
      (hxid : x.exportId = e) (hexports : t.exports = s.exports)

omit [DecidableEq P] in
/-- A deletion that is called while none is under way. -/
theorem Records.deleteExportRecord (h : Records s) {d : D}
    (hdeletions : ∀ d, s.deletions d = none)
    (hended : ∀ task, s.tasks e = some task → task.phase = .ended) :
    Records (s.deleteExportRecord d e true) ∧ Called s d e (s.deleteExportRecord d e true) := by
  unfold State.deleteExportRecord
  split
  · rename_i hidx
    exact ⟨h, .unlisted (by simpa using hidx) rfl⟩
  · rename_i idx hidx
    obtain ⟨hlt, hid, -⟩ := List.findIdx?_eq_some_iff_getElem.1 hidx
    have hr : s.exports[idx]? = some s.exports[idx] := List.getElem?_eq_getElem hlt
    have hid : s.exports[idx].exportId = e := by simpa using hid
    obtain ⟨task, htask, -⟩ := h.listed.fits _ (List.getElem_mem hlt)
    rw [hid] at htask
    have hnone : ∀ {d' x}, s.deletions d' ≠ some x := fun hx => by
      rw [hdeletions] at hx
      cases hx
    split
    · rename_i hurl
      rw [hr, Option.bind_some] at hurl
      have herase := eraseIdx_eq_filter h.listed.ids hr
      rw [hid] at herase
      refine ⟨⟨h.chain, ?_, h.handles, ?_, rfl⟩, .removed _ (List.getElem_mem hlt) hid hurl herase⟩
      · show Listed (s.exports.eraseIdx idx) _ _
        rw [herase]
        exact h.listed.erase htask (hended task htask)
      · show Stored (s.exports.eraseIdx idx) _ _ _
        rw [herase]
        exact ⟨h.stored.alone, fun d x hx => absurd hx hnone,
          fun r hr => h.stored.files r (List.mem_filter.1 hr).1, h.stored.unlinked⟩
    · rename_i url hurl
      rw [hr, Option.bind_some] at hurl
      have hone : ∀ d' x, Function.update s.deletions d
          (some ({ exportId := e, idx := idx, url := url } : Deletion E P)) d' = some x →
          d' = d ∧ x = { exportId := e, idx := idx, url := url } := fun d' x hx => by
        rcases update_eq_some.1 hx with ⟨heq, hx⟩ | ⟨-, hx⟩
        · exact ⟨heq, (Option.some.inj hx).symm⟩
        · exact absurd hx hnone
      refine ⟨⟨h.chain, h.listed, h.handles, ?_, h.saved⟩, .waits _ (List.getElem_mem hlt) hid
        { exportId := e, idx := idx, url := url } hurl (Function.update_self ..) rfl rfl⟩
      refine ⟨fun d₁ x₁ d₂ x₂ h₁ h₂ => ?_, fun d' x hx => ?_, fun r hr path hpath => ?_,
        fun d' x hx hunlinked => ?_⟩
      · rw [(hone d₁ x₁ h₁).1, (hone d₂ x₂ h₂).1]
      · obtain ⟨-, rfl⟩ := hone d' x hx
        exact ⟨_, hr, hid, hurl, task, htask, hended task htask⟩
      · exact .inl ((h.stored.files r hr path hpath).resolve_right
          fun ⟨d', x, hx, _⟩ => absurd hx hnone)
      · obtain ⟨-, rfl⟩ := hone d' x hx
        cases hunlinked

/-- **One step**.  Under the guard every step keeps the records. -/
theorem Records.step (h : Records s) {a : Action E D P} (hok : Apart s a)
    (hstep : step s a = some t) : Records t := by
  cases a with
  | exportCommunity e destPath persisted =>
    obtain ⟨rfl, hpath⟩ := hok
    simp only [ExportRecords.step] at hstep
    split at hstep
    · cases hstep
    · rename_i hnew
      cases hstep
      exact h.push (by simpa using hnew) hpath
  | chain e =>
    obtain ⟨task, htask, hphase, hnext⟩ := inPhase_eq_some.1 hstep
    obtain rfl := Option.some.inj hnext
    exact h.chained htask hphase
  | begin e persisted =>
    obtain rfl : persisted = true := hok
    obtain ⟨task, htask, hphase, hnext⟩ := inPhase_eq_some.1 hstep
    split at hnext
    · rename_i hfirst
      obtain rfl := Option.some.inj hnext
      exact h.beginExport htask hphase hfirst
    · cases hnext
  | progress e progress persisted =>
    obtain rfl : persisted = true := hok
    obtain ⟨task, htask, hphase, hnext⟩ := inPhase_eq_some.1 hstep
    split at hnext
    · obtain rfl := Option.some.inj hnext
      exact h.progress htask hphase progress
    · cases hnext
  | finish e result persisted =>
    obtain rfl : persisted = true := hok
    obtain ⟨task, htask, hphase, hnext⟩ := inPhase_eq_some.1 hstep
    rcases result with _ | ⟨size, sha256⟩ <;> obtain rfl := Option.some.inj hnext
    · exact h.failExport htask hphase
    · exact h.complete htask hphase size sha256
  | close e =>
    obtain ⟨task, htask, hphase, hnext⟩ := inPhase_eq_some.1 hstep
    obtain rfl := Option.some.inj hnext
    exact h.closed htask hphase
  | cancelExport e =>
    simp only [ExportRecords.step] at hstep
    split at hstep
    · cases hstep
    · rename_i task htask
      cases hstep
      split
      · rename_i hactive
        exact h.cancelExport htask (hok task htask) hactive
      · exact h
  | deleteExportRecord d e persisted =>
    obtain ⟨rfl, hdeletions, hended⟩ := hok
    simp only [ExportRecords.step] at hstep
    split at hstep
    · cases hstep
    · cases hstep
      exact (h.deleteExportRecord hdeletions hended).1
  | unlink d removed =>
    simp only [ExportRecords.step] at hstep
    split at hstep
    · cases hstep
    · rename_i x hx
      split at hstep
      · cases hstep
      · cases hstep
        obtain rfl : removed = true := hok
        exact ⟨h.chain, h.listed, h.handles, h.stored.unlink h.listed hx, h.saved⟩
  | splice d persisted =>
    obtain rfl : persisted = true := hok
    simp only [ExportRecords.step] at hstep
    split at hstep
    · cases hstep
    · rename_i x hx
      split at hstep
      · cases hstep
        exact (h.erase hx).1
      · cases hstep
  | loadAndPruneExportsFromKeyv persisted =>
    cases hstep
    rw [h.loadAndPrune hok.1 hok.2]
    exact h

end Step

/-! ## Deletions -/

/-- The action removes the record of the export. -/
def Deletes (s : State E D P) (e : E) : Action E D P → Prop
  | .deleteExportRecord _ e' _ => e' = e
  | .splice d _ => ∃ x, s.deletions d = some x ∧ x.exportId = e
  | _ => False

def Action.isOfDeletion : Action E D P → Bool
  | .deleteExportRecord _ _ _ | .unlink _ _ | .splice _ _ => true
  | _ => false

/-- A deletion removes the record and the file it is about, and no step removes anything else. -/
structure Owned (s : State E D P) (a : Action E D P) (t : State E D P) : Prop where
  records : ∀ r ∈ s.exports, (∀ r' ∈ t.exports, r'.exportId ≠ r.exportId) →
    Deletes s r.exportId a
  files : ∀ path, s.files path = true → t.files path = false → ∃ d x, a = .unlink d true ∧
    s.deletions d = some x ∧ x.url = path ∧
    ∀ r ∈ s.exports, r.url = some path → r.exportId = x.exportId
  called : ∀ d e persisted, a = .deleteExportRecord d e persisted → Called s d e t
  /-- What a deletion is about stays until it is over. -/
  pending : ∀ d x, s.deletions d = some x → (∃ persisted, a = .splice d persisted) ∨
    ∃ x', t.deletions d = some x' ∧ x'.exportId = x.exportId ∧ x'.url = x.url
  spliced : ∀ d persisted x, a = .splice d persisted → s.deletions d = some x →
    (∃ r ∈ s.exports, r.exportId = x.exportId ∧ r.url = some x.url) ∧
    (t.exports = s.exports.filter fun r => r.exportId ≠ x.exportId) ∧ t.files x.url = false

/-- What a deletion that is under way does next. -/
def Deletion.next (x : Deletion E P) (d : D) : Action E D P :=
  if x.unlinked then .splice d true else .unlink d true

section Owned

variable {s t : State E D P} {a : Action E D P}

omit [DecidableEq D] [DecidableEq P] in
theorem exists_mem_patchFirst {e : E}
    {patch : CommunityExportRecord E P → CommunityExportRecord E P}
    (hid : ∀ r, (patch r).exportId = r.exportId) :
    ∀ {records : List (CommunityExportRecord E P)}, ∀ r ∈ records,
      ∃ r' ∈ patchFirst e patch records, r'.exportId = r.exportId
  | first :: rest, r, hr => by
    rw [patchFirst]
    rcases List.mem_cons.1 hr with rfl | hr
    · split
      · exact ⟨_, List.mem_cons_self, hid _⟩
      · exact ⟨_, List.mem_cons_self, rfl⟩
    · split
      · exact ⟨r, List.mem_cons_of_mem _ hr, rfl⟩
      · obtain ⟨r', hr', h⟩ := exists_mem_patchFirst hid r hr
        exact ⟨r', List.mem_cons_of_mem _ hr', h⟩

omit [DecidableEq E] in
/-- A deletion that is under way can go on. -/
theorem canGoOn_of_deletion [DecidableEq E] {d : D} {x : Deletion E P}
    (hx : s.deletions d = some x) : (ExportRecords.step s (x.next d)).isSome = true := by
  cases hunlinked : x.unlinked with
  | false => simp [Deletion.next, ExportRecords.step, hx, hunlinked]
  | true => simp [Deletion.next, ExportRecords.step, hx, hunlinked]

omit [DecidableEq D] [DecidableEq P] in
/-- A step that keeps every record, every file and every deletion. -/
theorem Owned.of_kept (hrecords : ∀ r ∈ s.exports, ∃ r' ∈ t.exports, r'.exportId = r.exportId)
    (hfiles : ∀ path, s.files path = true → t.files path = true)
    (hdeletions : t.deletions = s.deletions) (ha : a.isOfDeletion = false) : Owned s a t where
  records := fun r hr hnone => by
    obtain ⟨r', hr', hid⟩ := hrecords r hr
    exact absurd hid (hnone r' hr')
  files := fun path hpath hgone => by
    rw [hfiles path hpath] at hgone
    cases hgone
  called := fun d e persisted heq => by
    rw [heq] at ha
    cases ha
  pending := fun d x hx => .inr ⟨x, by rw [hdeletions, hx], rfl, rfl⟩
  spliced := fun d persisted _ heq => by
    rw [heq] at ha
    cases ha

theorem Records.owned (h : Records s) (hok : Apart s a) (hstep : ExportRecords.step s a = some t) :
    Owned s a t := by
  have hsame : ∀ r ∈ s.exports, ∃ r' ∈ s.exports, r'.exportId = r.exportId := fun r hr =>
    ⟨r, hr, rfl⟩
  cases a with
  | exportCommunity e destPath persisted =>
    simp only [ExportRecords.step] at hstep
    split at hstep
    · cases hstep
    · cases hstep
      exact .of_kept (fun r hr => ⟨r, List.mem_append_left _ hr, rfl⟩) (fun _ hpath => hpath)
        rfl rfl
  | chain e =>
    obtain ⟨task, -, -, hnext⟩ := inPhase_eq_some.1 hstep
    obtain rfl := Option.some.inj hnext
    exact .of_kept hsame (fun _ hpath => hpath) rfl rfl
  | begin e persisted =>
    obtain ⟨task, -, -, hnext⟩ := inPhase_eq_some.1 hstep
    split at hnext
    · obtain rfl := Option.some.inj hnext
      unfold State.beginExport
      split
      · exact .of_kept hsame (fun _ hpath => hpath) rfl rfl
      · split
        · exact .of_kept hsame (fun _ hpath => hpath) rfl rfl
        · split
          · rw [updateRecord_eq]
            exact .of_kept (fun r hr => exists_mem_patchFirst (by exact fun _ => rfl) r hr)
              (fun _ hpath => hpath) rfl rfl
          · exact .of_kept hsame (fun _ hpath => hpath) rfl rfl
    · cases hnext
  | progress e progress persisted =>
    obtain ⟨task, -, -, hnext⟩ := inPhase_eq_some.1 hstep
    split at hnext
    · obtain rfl := Option.some.inj hnext
      rw [updateRecord_eq]
      exact .of_kept (fun r hr => exists_mem_patchFirst (by exact fun _ => rfl) r hr)
        (fun _ hpath => hpath) rfl rfl
    · cases hnext
  | finish e result persisted =>
    obtain ⟨task, -, -, hnext⟩ := inPhase_eq_some.1 hstep
    rcases result with _ | ⟨size, sha256⟩ <;> obtain rfl := Option.some.inj hnext
    · rw [State.failExport, updateRecord_eq]
      exact .of_kept (fun r hr => exists_mem_patchFirst (by exact fun _ => rfl) r hr)
        (fun _ hpath => hpath) rfl rfl
    · rw [State.complete, updateRecord_eq]
      refine .of_kept (fun r hr => exists_mem_patchFirst (by exact fun _ => rfl) r hr)
        (fun path hpath => ?_) rfl rfl
      by_cases heq : path = task.destPath
      · rw [heq]
        exact Function.update_self ..
      · exact (Function.update_of_ne heq ..).trans hpath
  | close e =>
    obtain ⟨task, -, -, hnext⟩ := inPhase_eq_some.1 hstep
    obtain rfl := Option.some.inj hnext
    exact .of_kept hsame (fun _ hpath => hpath) rfl rfl
  | cancelExport e =>
    simp only [ExportRecords.step] at hstep
    split at hstep
    · cases hstep
    · cases hstep
      split <;> exact .of_kept hsame (fun _ hpath => hpath) rfl rfl
  | deleteExportRecord d e persisted =>
    obtain ⟨rfl, hdeletions, hended⟩ := hok
    simp only [ExportRecords.step] at hstep
    split at hstep
    · cases hstep
    · cases hstep
      have hfiles : (s.deleteExportRecord d e true).files = s.files := by
        unfold State.deleteExportRecord
        split
        · rfl
        · split <;> rfl
      have hcalled := (h.deleteExportRecord (d := d) hdeletions hended).2
      have hnone : ∀ {d' x}, s.deletions d' ≠ some x := fun hx => by
        rw [hdeletions] at hx
        cases hx
      refine ⟨fun r hr hgone => ?_, fun path hpath hgone => ?_, fun d' e' _ heq => ?_,
        fun d' x hx => absurd hx hnone, fun _ _ _ heq => (by cases heq)⟩
      · cases hcalled with
        | unlisted _ ht => exact absurd rfl (hgone r (by rw [ht]; exact hr))
        | waits _ _ _ _ _ _ _ hexports => exact absurd rfl (hgone r (by rw [hexports]; exact hr))
        | removed _ _ _ _ hexports =>
          rw [hexports] at hgone
          by_contra hne
          exact hgone r (List.mem_filter.2 ⟨hr, decide_eq_true fun heq => hne heq.symm⟩) rfl
      · rw [hfiles, hpath] at hgone
        cases hgone
      · cases heq
        exact hcalled
  | unlink d removed =>
    simp only [ExportRecords.step] at hstep
    obtain rfl : removed = true := hok
    split at hstep
    · cases hstep
    · rename_i x hx
      split at hstep
      · cases hstep
      · cases hstep
        refine ⟨fun r hr hnone => absurd rfl (hnone r hr), fun path hpath hgone => ?_,
          fun _ _ _ heq => (by cases heq), fun d' x' hx' => .inr ?_, fun _ _ _ heq => (by cases heq)⟩
        · obtain ⟨r₀, hr₀, hid₀, hurl₀, -⟩ := h.stored.deleting d x hx
          have heq : path = x.url := by
            by_contra hne
            have hstays : (s.unlink d x true).files path = s.files path :=
              Function.update_of_ne hne ..
            rw [hstays, hpath] at hgone
            cases hgone
          subst heq
          exact ⟨d, x, rfl, hx, rfl, fun r hr hurl =>
            (h.listed.eq_of_url hr (List.mem_of_getElem? hr₀) hurl hurl₀).trans hid₀⟩
        · obtain rfl := h.stored.alone d' x' d x hx' hx
          obtain rfl := Option.some.inj (hx.symm.trans hx')
          exact ⟨_, Function.update_self .., rfl, rfl⟩
  | splice d persisted =>
    obtain rfl : persisted = true := hok
    simp only [ExportRecords.step] at hstep
    split at hstep
    · cases hstep
    · rename_i x hx
      split at hstep
      · rename_i hunlinked
        cases hstep
        have herase := (h.erase hx).2
        refine ⟨fun r hr hnone => ?_, fun path hpath hgone => ?_, fun _ _ _ heq => (by cases heq),
          fun d' x' hx' => .inl ?_, fun d' _ x' heq hx' => ?_⟩
        · refine ⟨x, hx, ?_⟩
          by_contra hne
          rw [herase] at hnone
          exact hnone r (List.mem_filter.2 ⟨hr, decide_eq_true fun heq => hne heq.symm⟩) rfl
        · exact absurd (hpath.symm.trans hgone) (by simp)
        · rw [h.stored.alone d' x' d x hx' hx]
          exact ⟨true, rfl⟩
        · obtain ⟨rfl, -⟩ := Action.splice.inj heq
          obtain rfl := Option.some.inj (hx.symm.trans hx')
          obtain ⟨r, hr, hid, hurl, -⟩ := h.stored.deleting _ x hx
          exact ⟨⟨r, List.mem_of_getElem? hr, hid, hurl⟩, herase,
            h.stored.unlinked _ x hx hunlinked⟩
      · cases hstep
  | loadAndPruneExportsFromKeyv persisted =>
    cases hstep
    rw [h.loadAndPrune hok.1 hok.2]
    exact .of_kept hsame (fun _ hpath => hpath) rfl rfl

end Owned

/-! ## Runs -/

/-- Nothing is under way, and the list is the stored one: the records of exports that are over, each
with a file of its own if it is complete. -/
structure Initial (s : State E D P) : Prop where
  listed : Listed s.exports s.tasks s.deleted
  ended : ∀ e task, s.tasks e = some task → task.phase = .ended
  queue : s.exportQueue = []
  order : s.order = []
  active : ∀ e, s.activeExports e = false
  deletions : ∀ d, s.deletions d = none
  files : ∀ r ∈ s.exports, ∀ path, r.url = some path → s.files path = true
  saved : s.keyv = s.exports

/-- The records in one state. -/
structure Exact (s : State E D P) : Prop where
  /-- An export that is over has one record until it is deleted, complete or with an error. -/
  outcome : ∀ e task, s.tasks e = some task → task.phase = .ended → e ∉ s.deleted →
    ∃ r, s.exports.filter (·.exportId = e) = [r] ∧ (r.Complete task.destPath ∨ r.Failed)
  removed : ∀ e ∈ s.deleted, ∀ r ∈ s.exports, r.exportId ≠ e
  oneAtATime : ∀ e task, s.tasks e = some task → task.phase.isBegun = true →
    s.exportQueue.head? = some e
  inOrder : ∃ done, s.order = done ++ s.exportQueue ∧
    ∀ e ∈ done, ∃ task, s.tasks e = some task ∧ task.phase = .ended
  inactive : ∀ e task, s.tasks e = some task → task.phase = .ended → s.activeExports e = false

section Runs

variable {s t : State E D P} {as : List (Action E D P)}

omit [DecidableEq E] [DecidableEq D] [DecidableEq P] in
theorem Initial.records (h : Initial s) : Records s where
  __ := h
  chain := by
    refine ⟨by rw [h.queue]; exact List.nodup_nil, fun e => ?_, fun e task htask hbegun => ?_, [],
      by rw [h.order, h.queue]; rfl, by simp⟩
    · rw [h.queue]
      refine ⟨fun hmem => by simp at hmem, fun ⟨task, htask, hchained⟩ => ?_⟩
      simp [h.ended e task htask, Phase.isChained] at hchained
    · simp [h.ended e task htask, Phase.isBegun] at hbegun
  handles := ⟨fun e => by simp [h.active e, h.queue], fun e task htask hpending => by
    simp [h.ended e task htask] at hpending⟩
  stored := ⟨fun d x _ _ hx => by simp [h.deletions d] at hx,
    fun d x hx => by simp [h.deletions d] at hx,
    fun r hr path hpath => .inl (h.files r hr path hpath),
    fun d x hx => by simp [h.deletions d] at hx⟩

omit [DecidableEq D] [DecidableEq P] in
/-- Where ids are unique, a record is the only one with its id. -/
theorem filter_eq_singleton {e : E} : ∀ {records : List (CommunityExportRecord E P)},
    (records.map (·.exportId)).Nodup → ∀ r ∈ records, r.exportId = e →
    records.filter (·.exportId = e) = [r]
  | first :: rest, h, r, hr, hid => by
    obtain ⟨hnot, hnodup⟩ := List.nodup_cons.1 h
    rcases List.mem_cons.1 hr with rfl | hr
    · rw [List.filter_cons_of_pos (by simpa using hid)]
      congr 1
      refine List.filter_eq_nil_iff.2 fun r' hr' => ?_
      simpa using fun heq : r'.exportId = e => hnot (List.mem_map.2 ⟨r', hr', heq.trans hid.symm⟩)
    · have hne : first.exportId ≠ e := fun heq =>
        hnot (List.mem_map.2 ⟨r, hr, hid.trans heq.symm⟩)
      rw [List.filter_cons_of_neg (by simpa using hne)]
      exact filter_eq_singleton hnodup r hr hid

omit [DecidableEq D] [DecidableEq P] in
theorem Records.exact (h : Records s) : Exact s where
  outcome := fun e task htask hphase hdeleted => by
    obtain ⟨r, hr, hid⟩ := (h.listed.listed e task htask).resolve_left hdeleted
    obtain ⟨x, hx, hfit⟩ := h.listed.fits r hr
    rw [hid, htask, Option.some.injEq] at hx
    subst hx
    rw [Fits, hphase] at hfit
    exact ⟨r, filter_eq_singleton h.listed.ids r hr hid, hfit⟩
  removed := fun e he => (h.listed.gone e he).2
  oneAtATime := h.chain.first
  inOrder := h.chain.inOrder
  inactive := fun e task htask hphase => by
    by_contra hactive
    have hmem := (h.handles.active e).1 (by simpa using hactive)
    obtain ⟨x, hx, hchained⟩ := (h.chain.chained e).1 hmem
    rw [htask, Option.some.injEq] at hx
    subst hx
    simp [hphase, Phase.isChained] at hchained

/-- **Export records are exact**.  In every run under the guard, in every state that is reached and
at every step; and in every run at all the exports run one at a time, in their order, the first of
the queue can go on, and so can every deletion. -/
theorem exact_of_run (h : Initial s) :
    (∀ as t, Run step Apart s as t → Exact t ∧
      ∀ a u, Apart t a → step t a = some u → Owned t a u) ∧
    ∀ as t, Run step anyStep s as t → Chain t.tasks t.exportQueue t.order ∧
      (∀ e, t.exportQueue.head? = some e →
        ∃ task, t.tasks e = some task ∧ (step t (task.phase.next e)).isSome = true) ∧
      ∀ d x, t.deletions d = some x → (step t (x.next d)).isSome = true := by
  refine ⟨fun as t hrun => ?_, fun as t hrun => ?_⟩
  · have hrecords : Records t :=
      hrun.invariant (fun _ _ _ hs hok hstep => hs.step hok hstep) h.records
    exact ⟨hrecords.exact, fun a u hok hstep => hrecords.owned hok hstep⟩
  · have hchain : Chain t.tasks t.exportQueue t.order :=
      hrun.invariant (I := fun s : State E D P => Chain s.tasks s.exportQueue s.order)
        (fun _ _ _ hs _ hstep => hs.step hstep) h.records.chain
    exact ⟨hchain, fun e hfirst => hchain.canGoOn hfirst, fun d x => canGoOn_of_deletion⟩

end Runs

/-! ## Two deletions at the same time -/

/-- A community with no exports. -/
def noExports : State Nat Nat Nat := {}

theorem initial_noExports : Initial noExports where
  listed := ⟨List.nodup_nil, by simp [noExports], by simp [noExports], by simp [noExports],
    by simp [noExports]⟩
  ended := by simp [noExports]
  queue := rfl
  order := rfl
  active := fun _ => rfl
  deletions := fun _ => rfl
  files := by simp [noExports]
  saved := rfl

/-- Two exports and a deletion: the first is complete and deleted while the second runs, which then
fails. -/
def exportsAndDeletion : List (Action Nat Nat Nat) :=
  [.exportCommunity 0 7 true, .chain 0, .exportCommunity 1 8 true, .begin 0 true, .chain 1,
    .finish 0 (some (4096, "hash")) true, .close 0, .begin 1 true, .deleteExportRecord 0 0 true,
    .progress 1 50 true, .unlink 0 true, .finish 1 none true]

theorem exact_of_two_exports : ∃ t u, Run step Apart noExports exportsAndDeletion t ∧
    t.exports = [⟨0, 100, some 4096, some "hash", some 7, none⟩,
      ⟨1, 50, none, none, none, some .exportBackupFailed⟩] ∧
    step t (.splice 0 true) = some u ∧
    u.exports = [⟨1, 50, none, none, none, some .exportBackupFailed⟩] ∧
    Exact t ∧ Owned t (.splice 0 true) u := by
  have hrun : ∃ t, Run step Apart noExports exportsAndDeletion t ∧
      t.exports = [⟨0, 100, some 4096, some "hash", some 7, none⟩,
        ⟨1, 50, none, none, none, some .exportBackupFailed⟩] ∧
      ∃ u, step t (.splice 0 true) = some u ∧
        u.exports = [⟨1, 50, none, none, none, some .exportBackupFailed⟩] := by
    refine ⟨_, .cons ⟨rfl, by simp [noExports]⟩ rfl <| .cons trivial rfl <|
      .cons ⟨rfl, fun r hr _ task htask => ?_⟩ rfl <| .cons rfl rfl <| .cons trivial rfl <|
      .cons rfl rfl <| .cons trivial rfl <| .cons rfl rfl <|
      .cons ⟨rfl, fun _ => rfl, fun task htask => ?_⟩ rfl <| .cons rfl rfl <| .cons rfl rfl <|
      .cons rfl rfl <| .nil _, rfl, _, rfl, rfl⟩
    · obtain rfl := List.mem_singleton.1 hr
      obtain rfl := Option.some.inj htask
      decide
    · obtain rfl := Option.some.inj htask
      rfl
  obtain ⟨t, hrun, hexports, u, hstep, hrest⟩ := hrun
  obtain ⟨hexact, howned⟩ := (exact_of_run initial_noExports).1 _ t hrun
  exact ⟨t, u, hrun, hexports, hstep, hrest, hexact, howned _ u rfl hstep⟩

/-- The record of a complete export to a path of its own. -/
def completeRecord (e : Nat) : CommunityExportRecord Nat Nat :=
  ⟨e, 100, some 4096, some "hash", some e, none⟩

/-- A community with three complete exports. -/
def threeExports : State Nat Nat Nat where
  exports := (List.range 3).map completeRecord
  keyv := (List.range 3).map completeRecord
  tasks e := if e < 3 then some { destPath := e, phase := .ended } else none
  files path := path < 3

/-- The records `0` and `1` are deleted at the same time.  The index of the second was taken before
the first was removed, so that the record `2` goes and the record `1` stays. -/
theorem not_exact_of_two_deletions : ∃ t, Run step anyStep threeExports
      [.deleteExportRecord 0 0 true, .deleteExportRecord 1 1 true, .unlink 0 true, .unlink 1 true,
        .splice 0 true, .splice 1 true] t ∧
    t.exports = [completeRecord 1] ∧ t.deleted = [1, 0] ∧ t.files 1 = false ∧ ¬ Exact t := by
  refine ⟨_, .of_exec rfl, rfl, rfl, rfl, fun h => ?_⟩
  exact h.removed 1 (by decide) (completeRecord 1) (by decide) rfl

end ExportRecords
end Pkc

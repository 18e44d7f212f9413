import Mathlib.Algebra.Group.Nat.Even
import Mathlib.Data.List.Nodup
import Pkc.Library.Runs

/-!
# Pinning the comments again

When a community starts, it asks its IPFS node for the latest comment only: if that one is pinned,
the others are taken to be pinned too.  If it is not, all comments are added again, in the order of
their rows and a batch at a time, the comments of a batch up to fifty at once.  The walk ends with
an error when an addition fails, but the additions of that batch go on.

* `repinCommentsIPFSIfNeeded` is the question, and `Walk.step` a step of the walk.
* `NoFalseMark` says what the order is for: while the walk is not finished, the latest comment is
  not pinned, or every comment is.
* `noFalseMark_iff` says for which boards that holds, whatever the node does: those in which nothing
  else has to be added from the batch of the latest comment on.
* `not_noFalseMark`: the second of two comments is pinned and the first one fails.
-/

set_option autoImplicit false

namespace Pkc
namespace RepinWalk

open Runs

abbrev Cid := String

/-! ## The board -/

structure CommentsTableRow where
  rowid : Nat
  cid : Cid
  pendingApproval : Bool
  /-- `approved` of its CommentUpdate. -/
  approved : Option Bool
deriving DecidableEq

/-- The comments, in the order of their rows. -/
structure Board where
  rows : List CommentsTableRow
  sorted : rows.Pairwise fun row row' => row.rowid < row'.rowid
  positive : ∀ row ∈ rows, 0 < row.rowid
  nodup_cids : (rows.map CommentsTableRow.cid).Nodup

def Board.queryLatestCommentCid (board : Board) : Option Cid :=
  ((board.rows.filter fun row =>
    !row.pendingApproval && row.approved != some false).getLast?).map CommentsTableRow.cid

def repinCommentsBatchSize : Nat := 1000

/-- The rows after the last one that was read. -/
def Board.rowsAfter (board : Board) (lastRowid : Nat) : List CommentsTableRow :=
  board.rows.filter fun row => lastRowid < row.rowid

/-- `iterateAllCommentsOrderedByIdAsc` -/
def Board.commentRowsBatch (board : Board) (lastRowid : Nat) : List CommentsTableRow :=
  (board.rowsAfter lastRowid).take repinCommentsBatchSize

/-! ## The walk -/

inductive Phase
  | walking
  /-- The walk has ended with an error. -/
  | failed
  | finished
deriving DecidableEq

structure Walk where
  lastRowid : Nat
  /-- The comments of the batch that wait for their turn. -/
  waiting : List CommentsTableRow
  /-- The comments that are being added. -/
  running : List CommentsTableRow
  pinned : List Cid
  phase : Phase
deriving DecidableEq

/-- The state of the walk, if the latest comment is not pinned and the node says so. -/
def repinCommentsIPFSIfNeeded (board : Board) (pinned : List Cid)
    (reachable : Bool) : Option Walk :=
  board.queryLatestCommentCid.bind fun latest =>
    if reachable = true ∧ latest ∉ pinned then some ⟨0, [], [], pinned, .walking⟩ else none

inductive Event
  /-- The next batch is read. -/
  | next
  /-- The first one that waits is taken. -/
  | start
  /-- An addition ends.  It may fail after the comment was pinned. -/
  | settle (index : Nat) (pins ok : Bool)
deriving DecidableEq

/-- How many additions run at once. -/
def concurrency : Nat := 50

def Walk.step (board : Board) (s : Walk) : Event → Option Walk
  | .next =>
    if s.phase = .walking ∧ s.waiting = [] ∧ s.running = [] then
      match (board.commentRowsBatch s.lastRowid).getLast? with
      | none => some { s with phase := .finished }
      | some last =>
        some { s with lastRowid := last.rowid, waiting := board.commentRowsBatch s.lastRowid }
    else none
  | .start =>
    match s.waiting with
    | [] => none
    | row :: rest =>
      if s.running.length < concurrency then
        -- a comment that waits for approval is not pinned
        some { s with
          waiting := rest
          running := if row.pendingApproval then s.running else s.running ++ [row] }
      else none
  | .settle index pins ok =>
    (s.running[index]?).bind fun row =>
      if ok = true ∧ pins = false then none
      else some { s with
        running := s.running.eraseIdx index
        pinned := if pins then row.cid :: s.pinned else s.pinned
        phase := if ok then s.phase else .failed }

/-! ## What it is for -/

/-- The latest comment is not pinned, or every comment that is approved is. -/
def NoFalseMark (board : Board) (s : Walk) : Prop :=
  s.phase ≠ .finished → ∀ latest, board.queryLatestCommentCid = some latest →
    latest ∉ s.pinned ∨ ∀ row ∈ board.rows, row.pendingApproval = false → row.cid ∈ s.pinned

/-- The rows from the batch of the comment on. -/
def Board.fromBatchOf (board : Board) (cid : Cid) : List CommentsTableRow :=
  board.rows.drop (board.rows.findIdx (fun row => row.cid = cid) / repinCommentsBatchSize *
    repinCommentsBatchSize)

/-- No comment is added together with the latest one or after it. -/
def LatestAlone (board : Board) (pinned : List Cid) : Prop :=
  ∀ latest, board.queryLatestCommentCid = some latest → ∀ row ∈ board.fromBatchOf latest,
    row.pendingApproval = false → row.cid = latest ∨ row.cid ∈ pinned

/-! ## The rows that are read -/

section Rows

variable {board : Board} {done batch rest : List CommentsTableRow}

/-- What comes after the last row of a batch. -/
theorem Board.rowsAfter_last (hrows : board.rows = done ++ rest) {last : CommentsTableRow}
    (hlast : done.getLast? = some last) : board.rowsAfter last.rowid = rest := by
  have hsorted := board.sorted
  rw [hrows, List.pairwise_append] at hsorted
  obtain ⟨before, rfl⟩ := List.getLast?_eq_some_iff.1 hlast
  rw [rowsAfter, hrows, List.filter_append, List.filter_eq_nil_iff.2, List.filter_eq_self.2,
    List.nil_append]
  · intro row hrow
    simpa using hsorted.2.2 last (by simp) row hrow
  · intro row hrow
    have hbefore := (List.pairwise_append.1 hsorted.1).2.2
    rcases List.mem_append.1 hrow with hrow | hrow
    · have hlt := hbefore row hrow last (by simp)
      simp only [decide_eq_true_eq]
      omega
    · rw [List.mem_singleton.1 hrow]
      simp

theorem Board.rowsAfter_zero : board.rowsAfter 0 = board.rows :=
  List.filter_eq_self.2 fun row hrow => by simpa using board.positive row hrow

theorem Board.eq_of_cid {row row' : CommentsTableRow} (hrow : row ∈ board.rows)
    (hrow' : row' ∈ board.rows) (heq : row.cid = row'.cid) : row = row' :=
  List.inj_on_of_nodup_map board.nodup_cids hrow hrow' heq

theorem Board.exists_latest {latest : Cid} (h : board.queryLatestCommentCid = some latest) :
    ∃ row ∈ board.rows, row.cid = latest ∧ row.pendingApproval = false := by
  obtain ⟨row, hlast, rfl⟩ := Option.map_eq_some_iff.1 h
  have hmem := List.mem_filter.1 (List.mem_of_getLast? hlast)
  exact ⟨row, hmem.1, rfl, by simpa using (Bool.and_eq_true_iff.1 hmem.2).1⟩

end Rows

/-! ## Whatever the node does -/

section Invariant

variable {board : Board} {pins : List Cid} {s s' : Walk} {event : Event}

/-- The rows of the batches that are done, of the batch that is being added, and after it. -/
structure Walk.Ok (board : Board) (pins : List Cid) (s : Walk)
    (done batch rest : List CommentsTableRow) : Prop where
  rows : board.rows = done ++ (batch ++ rest)
  done_aligned : repinCommentsBatchSize ∣ done.length
  batch_length : batch.length ≤ repinCommentsBatchSize
  batch_aligned : rest ≠ [] → repinCommentsBatchSize ∣ (done ++ batch).length
  next : board.rowsAfter s.lastRowid = rest
  waiting : ∀ row ∈ s.waiting, row ∈ batch
  running : ∀ row ∈ s.running, row ∈ batch
  kept : ∀ cid ∈ pins, cid ∈ s.pinned
  pinned : ∀ cid ∈ s.pinned, cid ∈ pins ∨ ∃ row ∈ done ++ batch, row.cid = cid
  done_pinned : ∀ row ∈ done, row.pendingApproval = false → row.cid ∈ s.pinned
  batch_pinned : s.phase ≠ .failed → ∀ row ∈ batch, row.pendingApproval = false →
    row.cid ∈ s.pinned ∨ row ∈ s.waiting ∨ row ∈ s.running

theorem Walk.ok_start (board : Board) (pins : List Cid) :
    Walk.Ok board pins ⟨0, [], [], pins, .walking⟩ [] [] board.rows where
  rows := rfl
  done_aligned := ⟨0, rfl⟩
  batch_length := Nat.zero_le _
  batch_aligned := fun _ => ⟨0, rfl⟩
  next := board.rowsAfter_zero
  waiting := nofun
  running := nofun
  kept := fun _ hcid => hcid
  pinned := fun _ hcid => .inl hcid
  done_pinned := nofun
  batch_pinned := nofun

variable {done batch rest : List CommentsTableRow}

theorem Walk.Ok.next_step (hs : s.Ok board pins done batch rest)
    (hstep : s.step board .next = some s') :
    ∃ done batch rest, s'.Ok board pins done batch rest := by
  rw [step] at hstep
  split at hstep
  · rename_i hready
    obtain ⟨hwalking, hwaiting, hrunning⟩ := hready
    have hall : ∀ row ∈ done ++ batch, row.pendingApproval = false → row.cid ∈ s.pinned := by
      intro row hrow happroved
      rcases List.mem_append.1 hrow with hrow | hrow
      · exact hs.done_pinned row hrow happroved
      · have hbatch := hs.batch_pinned (by simp [hwalking]) row hrow happroved
        simpa [hwaiting, hrunning] using hbatch
    have hread : board.commentRowsBatch s.lastRowid = rest.take repinCommentsBatchSize := by
      rw [Board.commentRowsBatch, hs.next]
    rw [hread] at hstep
    split at hstep
    · cases hstep
      exact ⟨done, batch, rest, hs.rows, hs.done_aligned, hs.batch_length, hs.batch_aligned,
        hs.next, hs.waiting, hs.running, hs.kept, hs.pinned, hs.done_pinned,
        fun _ => hs.batch_pinned (by simp [hwalking])⟩
    · rename_i last hlast
      cases hstep
      have hrest : rest ≠ [] := by
        rintro rfl
        cases hlast
      have hrows : board.rows = (done ++ batch ++ rest.take repinCommentsBatchSize) ++
          rest.drop repinCommentsBatchSize := by
        rw [hs.rows]
        simp
      refine ⟨done ++ batch, rest.take repinCommentsBatchSize, rest.drop repinCommentsBatchSize, ?_⟩
      exact {
        rows := by rw [hrows, List.append_assoc]
        done_aligned := hs.batch_aligned hrest
        batch_length := List.length_take_le _ _
        batch_aligned := fun hmore => by
          rw [List.length_append, List.length_take,
            Nat.min_eq_left (Nat.le_of_lt (by simpa using hmore))]
          exact Nat.dvd_add (hs.batch_aligned hrest) (Nat.dvd_refl _)
        next := board.rowsAfter_last hrows (by
          rw [List.getLast?_append, hlast]
          rfl)
        waiting := fun row hrow => hrow
        running := by simp [hrunning]
        kept := hs.kept
        pinned := fun cid hcid => (hs.pinned cid hcid).imp_right fun ⟨row, hrow, heq⟩ =>
          ⟨row, List.mem_append_left _ hrow, heq⟩
        done_pinned := hall
        batch_pinned := fun _ row hrow _ => .inr (.inl hrow) }
  · cases hstep

theorem Walk.Ok.start_step (hs : s.Ok board pins done batch rest)
    (hstep : s.step board .start = some s') : s'.Ok board pins done batch rest := by
  rw [step] at hstep
  split at hstep
  · cases hstep
  · rename_i row waiting hwaiting
    split at hstep
    · cases hstep
      have hrow : row ∈ batch := hs.waiting row (by simp [hwaiting])
      refine { hs with waiting := fun x hx => ?_, running := fun x hx => ?_, batch_pinned := ?_ }
      · exact hs.waiting x (by simp [hwaiting, show x ∈ waiting from hx])
      · simp only at hx
        split at hx
        · exact hs.running x hx
        · rcases List.mem_append.1 hx with hx | hx
          · exact hs.running x hx
          · rwa [List.mem_singleton.1 hx]
      · intro hphase x hx happroved
        have hcases := hs.batch_pinned hphase x hx happroved
        rw [hwaiting, List.mem_cons] at hcases
        rcases hcases with hpinned | (rfl | hwait) | hrun
        · exact .inl hpinned
        · exact .inr (.inr (by simp [happroved]))
        · exact .inr (.inl hwait)
        · refine .inr (.inr ?_)
          simp only
          split
          · exact hrun
          · exact List.mem_append_left _ hrun
    · cases hstep

theorem Walk.Ok.settle_step (hs : s.Ok board pins done batch rest) {index : Nat} {settled ok : Bool}
    (hstep : s.step board (.settle index settled ok) = some s') :
    s'.Ok board pins done batch rest := by
  rw [step] at hstep
  obtain ⟨row, hrow, hstep⟩ := Option.bind_eq_some_iff.1 hstep
  split at hstep
  · cases hstep
  · rename_i hpossible
    cases hstep
    have hmem : row ∈ s.running := List.mem_of_getElem? hrow
    have hmore : ∀ cid ∈ s.pinned, cid ∈ if settled then row.cid :: s.pinned else s.pinned := by
      intro cid hcid
      split
      · exact List.mem_cons_of_mem _ hcid
      · exact hcid
    refine { hs with running := fun x hx => ?_, kept := ?_, pinned := ?_, done_pinned := ?_,
                     batch_pinned := ?_ }
    · exact hs.running x (List.mem_of_mem_eraseIdx hx)
    · exact fun cid hcid => hmore cid (hs.kept cid hcid)
    · intro cid hcid
      simp only at hcid
      split at hcid
      · rcases List.mem_cons.1 hcid with rfl | hcid
        · exact .inr ⟨row, List.mem_append_right _ (hs.running row hmem), rfl⟩
        · exact hs.pinned cid hcid
      · exact hs.pinned cid hcid
    · exact fun x hx happroved => hmore x.cid (hs.done_pinned x hx happroved)
    · intro hphase x hx happroved
      simp only at hphase
      split at hphase
      · rename_i hok
        have hpins : settled = true := by
          by_contra hnot
          exact hpossible ⟨hok, by simpa using hnot⟩
        rcases hs.batch_pinned hphase x hx happroved with hpinned | hwait | hrun
        · exact .inl (hmore _ hpinned)
        · exact .inr (.inl hwait)
        · by_cases heq : x = row
          · exact .inl (by simp [hpins, heq])
          · obtain ⟨i, hi⟩ := List.mem_iff_getElem?.1 hrun
            refine .inr (.inr (List.mem_eraseIdx_iff_getElem?.2 ⟨i, ?_, hi⟩))
            rintro rfl
            exact heq (Option.some.inj (hi.symm.trans hrow))
      · exact absurd rfl hphase

theorem Walk.Ok.step (hs : ∃ done batch rest, s.Ok board pins done batch rest)
    (hstep : s.step board event = some s') :
    ∃ done batch rest, s'.Ok board pins done batch rest := by
  obtain ⟨done, batch, rest, hs⟩ := hs
  cases event with
  | next => exact hs.next_step hstep
  | start => exact ⟨done, batch, rest, hs.start_step hstep⟩
  | settle index settled ok => exact ⟨done, batch, rest, hs.settle_step hstep⟩

/-- The rows that are read with the latest comment or after it begin no later than the batch. -/
theorem Walk.Ok.mem_fromBatchOf (hs : s.Ok board pins done batch rest)
    {row latest : CommentsTableRow}
    (hlatest : latest ∈ done ++ batch) (hrow : row ∈ batch ++ rest) :
    row ∈ board.fromBatchOf latest.cid := by
  have hindex : board.rows.findIdx (fun row => row.cid = latest.cid) < (done ++ batch).length := by
    rw [hs.rows, ← List.append_assoc, List.findIdx_append, if_pos]
    all_goals exact List.findIdx_lt_length_of_exists ⟨latest, hlatest, by simp⟩
  obtain ⟨k, hk⟩ := hs.done_aligned
  have hlength := hs.batch_length
  have hle : board.rows.findIdx (fun row => row.cid = latest.cid) / repinCommentsBatchSize *
      repinCommentsBatchSize ≤ done.length := by
    rw [List.length_append, hk] at hindex
    rw [hk, Nat.mul_comm]
    refine Nat.mul_le_mul_left _ (Nat.le_of_lt_succ (Nat.div_lt_of_lt_mul ?_))
    rw [Nat.mul_succ]
    omega
  rw [Board.fromBatchOf]
  generalize board.rows.findIdx (fun row => row.cid = latest.cid) / repinCommentsBatchSize *
    repinCommentsBatchSize = start at hle ⊢
  rw [hs.rows, List.drop_append, Nat.sub_eq_zero_of_le hle, List.drop_zero]
  exact List.mem_append_right _ hrow

theorem Walk.Ok.noFalseMark (hs : s.Ok board pins done batch rest) (halone : LatestAlone board pins)
    (hunpinned : ∀ latest, board.queryLatestCommentCid = some latest → latest ∉ pins) :
    NoFalseMark board s := by
  intro _ latest hquery
  by_cases hpinned : latest ∈ s.pinned
  · obtain ⟨row, hrow, rfl⟩ := (hs.pinned latest hpinned).resolve_left (hunpinned latest hquery)
    refine .inr fun other hother happroved => ?_
    rw [hs.rows] at hother
    rcases List.mem_append.1 hother with hother | hother
    · exact hs.done_pinned other hother happroved
    · rcases halone row.cid hquery other (hs.mem_fromBatchOf hrow hother) happroved with heq | hin
      · rwa [heq]
      · exact hs.kept other.cid hin
  · exact .inl hpinned

end Invariant

/-! ## A node that fails to add one comment -/

section Failure

variable {board : Board} {other : CommentsTableRow}

/-- Between two batches: nothing waits and nothing runs. -/
structure Walk.Idle (s : Walk) : Prop where
  waiting : s.waiting = []
  running : s.running = []

/-- The additions of a batch take their turns, and all but one pin their comment. -/
theorem exists_run_of_waiting (board : Board) (hother : other.pendingApproval = false)
    (waiting : List CommentsTableRow)
    (s : Walk) (hwaiting : s.waiting = waiting) (hrunning : s.running = [])
    (hphase : s.phase ≠ .finished) :
    ∃ events s', Run (Walk.step board) anyStep s events s' ∧ s'.Idle ∧
      s'.lastRowid = s.lastRowid ∧
      s'.phase = (if other ∈ waiting then .failed else s.phase) ∧
      ∀ cid, cid ∈ s'.pinned ↔ cid ∈ s.pinned ∨
        ∃ row ∈ waiting, row.pendingApproval = false ∧ row ≠ other ∧ row.cid = cid := by
  induction waiting generalizing s with
  | nil => exact ⟨[], s, .nil s, ⟨hwaiting, hrunning⟩, rfl, by simp, by simp⟩
  | cons row waiting ih =>
    have hstart : s.step board .start = some { s with
        waiting := waiting
        running := if row.pendingApproval then [] else [row] } := by
      simp [Walk.step, hwaiting, hrunning, concurrency]
    cases hpending : row.pendingApproval with
    | true =>
      obtain ⟨events, s', hrun, hidle, hrowid, hend, hpinned⟩ :=
        ih { s with waiting := waiting, running := [] } rfl rfl hphase
      rw [hpending] at hstart
      have hne : other ≠ row := by
        rintro rfl
        rw [hother] at hpending
        cases hpending
      refine ⟨.start :: events, s', .cons trivial hstart hrun, hidle, hrowid, ?_, fun cid => ?_⟩
      · simpa [hne] using hend
      · rw [hpinned cid]
        simp [hpending]
    | false =>
      rw [hpending] at hstart
      let pins := decide (row ≠ other)
      let settled : Walk := { s with
        waiting := waiting
        running := []
        pinned := if pins then row.cid :: s.pinned else s.pinned
        phase := if pins then s.phase else .failed }
      have hsettle : ({ s with waiting := waiting, running := [row] } : Walk).step board
          (.settle 0 pins pins) = some settled := by
        simp [Walk.step, settled]
      obtain ⟨events, s', hrun, hidle, hrowid, hend, hpinned⟩ := ih settled rfl rfl (by
        simp only [settled]
        split
        · exact hphase
        · decide)
      refine ⟨.start :: .settle 0 pins pins :: events, s',
        .cons trivial hstart (.cons trivial hsettle hrun), hidle, hrowid, ?_, fun cid => ?_⟩
      · rw [hend]
        by_cases heq : row = other
        · simp [settled, pins, heq]
        · simp [settled, pins, heq, Ne.symm heq]
      · rw [hpinned cid]
        by_cases heq : row = other
        · simp [settled, pins, heq]
        · simp only [settled, show pins = true from decide_eq_true heq, if_true]
          constructor
          · rintro (hin | ⟨x, hx, happroved, hne, rfl⟩)
            · rcases List.mem_cons.1 hin with rfl | hin
              · exact .inr ⟨row, List.mem_cons_self, hpending, heq, rfl⟩
              · exact .inl hin
            · exact .inr ⟨x, List.mem_cons_of_mem _ hx, happroved, hne, rfl⟩
          · rintro (hin | ⟨x, hx, happroved, hne, rfl⟩)
            · exact .inl (List.mem_cons_of_mem _ hin)
            · rcases List.mem_cons.1 hx with rfl | hx
              · exact .inl List.mem_cons_self
              · exact .inr ⟨x, hx, happroved, hne, rfl⟩

/-- The latest comment is pinned already, or it is in a batch that begins no later than that of the
other one. -/
def Reaches (latest other : CommentsTableRow) (pinned : List Cid) (rest : List CommentsTableRow) :
    Prop :=
  latest.cid ∈ pinned ∨ ∃ before from_, rest = before ++ from_ ∧
    repinCommentsBatchSize ∣ before.length ∧ latest ∈ from_.take repinCommentsBatchSize ∧
      other ∈ from_

variable {latest : CommentsTableRow}

/-- After one batch the latest comment is pinned, or still to come. -/
theorem Reaches.drop {pinned pinned' : List Cid} {rest : List CommentsTableRow}
    (hnodup : rest.Nodup)
    (h : Reaches latest other pinned rest) (hkept : ∀ cid ∈ pinned, cid ∈ pinned')
    (hbatch : latest ∈ rest.take repinCommentsBatchSize → latest.cid ∈ pinned') :
    latest.cid ∈ pinned' ∨ other ∉ rest.take repinCommentsBatchSize ∧
      Reaches latest other pinned' (rest.drop repinCommentsBatchSize) := by
  rcases h with hpinned | ⟨before, from_, rfl, ⟨k, hk⟩, hlatest, hother⟩
  · exact .inl (hkept _ hpinned)
  · cases k with
    | zero =>
      obtain rfl := List.length_eq_zero_iff.1 hk
      exact .inl (hbatch hlatest)
    | succ k =>
      have hle : repinCommentsBatchSize ≤ before.length := by
        rw [hk]
        exact Nat.le_mul_of_pos_right _ (Nat.succ_pos k)
      rw [List.take_append_of_le_length hle, List.drop_append_of_le_length hle]
      refine .inr ⟨fun hin => ?_, .inr ⟨_, from_, rfl, ⟨k, ?_⟩, hlatest, hother⟩⟩
      · exact (List.nodup_append.1 hnodup).2.2 other (List.mem_of_mem_take hin) other hother rfl
      · rw [List.length_drop, hk, Nat.mul_succ]
        omega

/-- The walk goes on to the batch of the other comment, and fails there. -/
theorem exists_run_of_rest (board : Board) (hother : other.pendingApproval = false)
    (hlatest : latest.pendingApproval = false) (hne : latest ≠ other) (n : Nat)
    (done rest : List CommentsTableRow) (s : Walk) (hidle : s.Idle) (hwalking : s.phase = .walking)
    (hrows : board.rows = done ++ rest) (hnext : board.rowsAfter s.lastRowid = rest)
    (hlength : rest.length ≤ n) (hin : other ∈ rest) (hunpinned : other.cid ∉ s.pinned)
    (hreaches : Reaches latest other s.pinned rest) :
    ∃ events s', Run (Walk.step board) anyStep s events s' ∧ s'.phase = .failed ∧
      other.cid ∉ s'.pinned ∧ latest.cid ∈ s'.pinned := by
  induction n generalizing done rest s with
  | zero =>
    rw [List.length_eq_zero_iff.1 (Nat.le_zero.1 hlength)] at hin
    cases hin
  | succ n ih =>
    have hread : board.commentRowsBatch s.lastRowid = rest.take repinCommentsBatchSize := by
      rw [Board.commentRowsBatch, hnext]
    obtain ⟨last, hlast⟩ : ∃ last, (rest.take repinCommentsBatchSize).getLast? = some last := by
      cases rest with
      | nil => cases hin
      | cons row rest => exact ⟨_, List.getLast?_eq_some_getLast (by simp [repinCommentsBatchSize])⟩
    have hstep : s.step board .next = some { s with
        lastRowid := last.rowid, waiting := rest.take repinCommentsBatchSize } := by
      rw [Walk.step, if_pos ⟨hwalking, hidle.waiting, hidle.running⟩, hread, hlast]
    obtain ⟨events, s', hrun, hidle', hrowid, hphase, hpinned⟩ := exists_run_of_waiting board
      hother (rest.take repinCommentsBatchSize)
      { s with lastRowid := last.rowid, waiting := rest.take repinCommentsBatchSize } rfl hidle.running
      (by simp [hwalking])
    have hrun' : Run (Walk.step board) anyStep s _ s' := .cons trivial hstep hrun
    have hmem : ∀ row ∈ rest, row ∈ board.rows := fun row hrow => by
      rw [hrows]
      exact List.mem_append_right _ hrow
    have hstill : other.cid ∉ s'.pinned := by
      rw [hpinned]
      rintro (hold | ⟨row, hrow, -, hdiff, heq⟩)
      · exact hunpinned hold
      · exact hdiff (board.eq_of_cid (hmem row (List.mem_of_mem_take hrow)) (hmem other hin) heq)
    have hnodup : rest.Nodup := by
      have hall := board.nodup_cids.of_map
      rw [hrows] at hall
      exact (List.nodup_append.1 hall).2.1
    have hdrop : latest.cid ∈ s'.pinned ∨ other ∉ rest.take repinCommentsBatchSize ∧
        Reaches latest other s'.pinned (rest.drop repinCommentsBatchSize) := hreaches.drop hnodup
      (fun cid hcid => (hpinned cid).2 (.inl hcid))
      (fun hbatch => (hpinned _).2 (.inr ⟨latest, hbatch, hlatest, hne, rfl⟩))
    by_cases hbatch : other ∈ rest.take repinCommentsBatchSize
    · exact ⟨_, s', hrun', by rw [hphase, if_pos hbatch], hstill,
        hdrop.resolve_right fun h => h.1 hbatch⟩
    · have hrows' : board.rows = (done ++ rest.take repinCommentsBatchSize) ++
          rest.drop repinCommentsBatchSize := by
        rw [hrows]
        simp
      have hin' : other ∈ rest.drop repinCommentsBatchSize := by
        rw [← List.take_append_drop repinCommentsBatchSize rest] at hin
        exact (List.mem_append.1 hin).resolve_left hbatch
      obtain ⟨events', s'', hrest, hend, hout, hpin⟩ := ih _ _ s' hidle'
        (by rw [hphase, if_neg hbatch]; exact hwalking) hrows'
        (by
          rw [hrowid]
          exact board.rowsAfter_last hrows' (by
            rw [List.getLast?_append, hlast]
            rfl))
        (by
          have hpos := List.length_pos_of_mem hin
          rw [List.length_drop]
          have : 0 < repinCommentsBatchSize := by decide
          omega)
        hin' hstill (hdrop.elim .inl fun h => h.2)
      exact ⟨_, s'', hrun'.append hrest, hend, hout, hpin⟩

/-- A comment from the batch of the latest one on is reached no earlier than that one. -/
theorem reaches_start (hlatest : latest ∈ board.rows)
    (hother : other ∈ board.fromBatchOf latest.cid)
    (pinned : List Cid) : Reaches latest other pinned board.rows := by
  have hindex : board.rows.findIdx (fun row => row.cid = latest.cid) < board.rows.length :=
    List.findIdx_lt_length_of_exists ⟨latest, hlatest, by simp⟩
  have hfound : board.rows[board.rows.findIdx (fun row => row.cid = latest.cid)] = latest :=
    board.eq_of_cid (List.getElem_mem hindex) hlatest
      (by simpa using List.findIdx_getElem (w := hindex))
  rw [Board.fromBatchOf] at hother
  generalize board.rows.findIdx (fun row => row.cid = latest.cid) = index at hindex hfound hother
  have hle := Nat.div_mul_le_self index repinCommentsBatchSize
  have hlt := Nat.lt_div_mul_add (a := index) (show 0 < repinCommentsBatchSize by decide)
  refine .inr ⟨_, _, (List.take_append_drop _ _).symm, ⟨index / repinCommentsBatchSize, ?_⟩, ?_, hother⟩
  · rw [List.length_take, Nat.min_eq_left (by omega), Nat.mul_comm]
  · rw [List.mem_take_iff_getElem]
    refine ⟨index - index / repinCommentsBatchSize * repinCommentsBatchSize, ?_, ?_⟩
    · rw [List.length_drop]
      omega
    · rw [List.getElem_drop, ← hfound]
      congr 1
      omega

end Failure

/-! ## The result -/

/-- **The walk.**  Whatever the node does, no walk leaves a false mark, if and only if no other
comment has to be added from the batch of the latest one on. -/
theorem noFalseMark_iff (board : Board) (pinned : List Cid) (reachable : Bool) (s : Walk)
    (hwalk : repinCommentsIPFSIfNeeded board pinned reachable = some s) :
    (∀ events s', Run (Walk.step board) anyStep s events s' → NoFalseMark board s') ↔
      LatestAlone board pinned := by
  obtain ⟨latest, hquery, hs⟩ := Option.bind_eq_some_iff.1 hwalk
  split at hs
  · rename_i hneeded
    cases hs
    constructor
    · intro hall latest' hquery' other hother happroved
      obtain rfl := Option.some.inj (hquery.symm.trans hquery')
      by_contra hnot
      obtain ⟨hne, hunpinned⟩ := not_or.1 hnot
      obtain ⟨row, hrow, rfl, hlatest⟩ := board.exists_latest hquery
      have hmem : other ∈ board.rows := List.mem_of_mem_drop hother
      obtain ⟨events, s', hrun, hfailed, hout, hin⟩ := exists_run_of_rest board happroved hlatest
        (fun heq => hne (heq ▸ rfl)) board.rows.length [] board.rows
        ⟨0, [], [], pinned, .walking⟩ ⟨rfl, rfl⟩ rfl rfl board.rowsAfter_zero le_rfl hmem hunpinned
        (reaches_start hrow hother pinned)
      rcases hall events s' hrun (by simp [hfailed]) row.cid hquery with hlatest | hpinned
      · exact hlatest hin
      · exact hout (hpinned other hmem happroved)
    · intro halone events s' hrun
      obtain ⟨done, batch, rest, hok⟩ := hrun.invariant
        (I := fun s => ∃ done batch rest, s.Ok board pinned done batch rest)
        (fun s a s' hs _ hstep => Walk.Ok.step hs hstep) ⟨_, _, _, Walk.ok_start board pinned⟩
      refine hok.noFalseMark halone fun latest' hquery' => ?_
      obtain rfl := Option.some.inj (hquery.symm.trans hquery')
      exact hneeded.2
  · cases hs

/-! ## Two comments -/

/-- Two comments that are approved; a third one waits. -/
def twoApproved : Board where
  rows := [⟨1, "first", false, some true⟩, ⟨2, "second", false, none⟩, ⟨3, "third", true, none⟩]
  sorted := by decide
  positive := by decide
  nodup_cids := by decide

/-- The first comment is pinned already. -/
theorem noFalseMark_iff_firstPinned : ∃ s,
    repinCommentsIPFSIfNeeded twoApproved ["first"] true = some s ∧
      ∀ events s', Run (Walk.step twoApproved) anyStep s events s' → NoFalseMark twoApproved s' := by
  have hwalk : repinCommentsIPFSIfNeeded twoApproved ["first"] true =
      some ⟨0, [], [], ["first"], .walking⟩ := by decide
  refine ⟨_, hwalk, (noFalseMark_iff twoApproved ["first"] true _ hwalk).2 ?_⟩
  intro latest hquery row hrow happroved
  have hrows : ∀ row ∈ twoApproved.rows, row.pendingApproval = false →
      row.cid = "second" ∨ row.cid ∈ ["first"] := by decide
  obtain rfl : "second" = latest := Option.some.inj hquery
  exact hrows row (List.mem_of_mem_drop hrow) happroved

/-- **A false mark.**  Nothing is pinned; the second comment is added while the first one fails.
The next start finds the latest comment pinned and adds nothing. -/
theorem not_noFalseMark : ∃ s events s',
    repinCommentsIPFSIfNeeded twoApproved [] true = some s ∧
      Run (Walk.step twoApproved) anyStep s events s' ∧ s'.phase = .failed ∧
        ¬ NoFalseMark twoApproved s' ∧ repinCommentsIPFSIfNeeded twoApproved s'.pinned true = none := by
  refine ⟨_, [.next, .start, .start, .start, .settle 1 true true, .settle 0 false false], _, rfl,
    .of_exec rfl, rfl, fun h => ?_, by decide⟩
  have hpinned := h (by decide) "second" (by decide)
  revert hpinned
  decide

end RepinWalk
end Pkc

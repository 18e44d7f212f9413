import Mathlib.Data.List.Pairwise
import Pkc.Database.Writes
import Pkc.Library.Runs

/-!
# The numbers of comments

A comment gets a number when it goes live, one more than the largest number that is stored, and a
post gets a second one among the posts.  It goes live when it is stored, if it does not have to be
approved, or when it is approved; one that was disapproved gets its numbers if its author publishes
it again.  The numbers are also in the CommentUpdates, which are calculated for a slice of comments,
signed, and then written.

* `State.step` is a step of the community, with the comments in the order in which they went live.
* `Numbered` says what holds of the numbers, and `Kept` that those of a comment stay.
* `numbered` says that this holds in every state, and that a number is above all that are stored.
* `not_neverAgain` and `not_neverChanges`: the number of a comment that was purged goes to the next
  one, and an update that is late has it still.

A comment that was purged can be stored again.  If its update was being signed then, the update that
is written has the numbers that the comment had before.
-/

set_option autoImplicit false

namespace Pkc
namespace Numbering

open Runs UpdateReads

/-! ## Counters -/

inductive Counter
  | number
  | postNumber

namespace Counter

def comment : Counter → CommentsTableRow → Option Nat
  | number, c => c.number
  | postNumber, c => c.postNumber

def update : Counter → CommentUpdatesRow → Option Nat
  | number, row => row.number
  | postNumber, row => row.postNumber

/-- The comments that it counts. -/
def Counts : Counter → CommentsTableRow → Prop
  | number, _ => True
  | postNumber, c => c.depth = 0

end Counter

/-! ## The community -/

structure State where
  tables : DbTables
  /-- The updates of the slice that is being signed. -/
  slice : List CommentUpdatesRow
  /-- The comments in the order in which they went live. -/
  live : List Cid
  /-- Those that were stored while an update was being signed for an earlier comment. -/
  overtaken : List Cid

def State.empty : State := ⟨⟨[], [], [], [], [], []⟩, [], [], []⟩

def Stored (t : DbTables) (cid : Cid) : Prop := ∃ c ∈ t.comments, c.cid = cid

instance (t : DbTables) (cid : Cid) : Decidable (Stored t cid) :=
  inferInstanceAs (Decidable (∃ c ∈ t.comments, c.cid = cid))

inductive Event
  /-- `storeComment`, of a comment that has no numbers yet. -/
  | store (row : CommentsTableRow)
  | approve (cid : Cid)
  | disapprove (cid : Cid)
  | purge (cid : Cid) (randomComment : Option Cid)
  /-- `_assignNumbersForComment`, for the verification that a publication is answered with. -/
  | answer (cid : Cid)
  /-- With what the updates have besides the numbers. -/
  | calculate (updates : List CommentUpdatesRow)
  | upsert
  /-- The slice is given up. -/
  | abandon

/-- With the numbers of `getNextCommentNumbers`. -/
def withNumbers (t : DbTables) (c : CommentsTableRow) : CommentsTableRow :=
  { c with
    number := some (t.nextNumber (fun _ => true) (·.number))
    postNumber :=
      if c.depth = 0 then some (t.nextNumber (fun c => c.depth = 0) (·.postNumber)) else none }

/-- The row that `storeComment` inserts. -/
def numberedRow (t : DbTables) (row : CommentsTableRow) : CommentsTableRow :=
  if row.pendingApproval then { row with number := none, postNumber := none } else withNumbers t row

/-- The key of the row is new, and its rowid is the next one. -/
def Insertable (t : DbTables) (row : CommentsTableRow) : Prop :=
  (∀ c ∈ t.comments, c.cid ≠ row.cid ∧ c.rowid < row.rowid) ∧ row.authorName ≠ some ""

instance (t : DbTables) (row : CommentsTableRow) : Decidable (Insertable t row) :=
  inferInstanceAs (Decidable (_ ∧ _))

/-- The updates of the comments that are stored. -/
def calculated (t : DbTables) (updates : List CommentUpdatesRow) : List CommentUpdatesRow :=
  let cids := updates.map (·.cid)
  updates.filterMap fun row => (t.queryCommentNumbersByCids cids row.cid).map fun numbers =>
    { row with number := numbers.number, postNumber := numbers.postNumber }

namespace State

/-- The comment that goes live, if it is not. -/
def goesLive (s : State) : Event → List Cid
  | .store row => if row.pendingApproval then [] else [row.cid]
  | .approve cid => if Stored s.tables cid ∧ cid ∉ s.live then [cid] else []
  | .answer cid =>
    if (∃ c ∈ s.tables.comments, c.cid = cid ∧ c.pendingApproval = false) ∧ cid ∉ s.live then [cid]
    else []
  | _ => []

/-- With the tables that a write to the comments leaves. -/
def wrote (s : State) (e : Event) (tables : DbTables) : State :=
  { s with
    tables := tables
    live := s.live.filter (fun cid => Stored tables cid) ++ s.goesLive e }

def step (s : State) : Event → Option State
  | .store row =>
    if Insertable s.tables row then
      some
        { s.wrote (.store row)
            { s.tables with comments := s.tables.comments ++ [numberedRow s.tables row] } with
          overtaken :=
            if s.slice.any (·.cid = row.cid) then row.cid :: s.overtaken
            else s.overtaken.filter (· ≠ row.cid) }
    else none
  | .approve cid => some (s.wrote (.approve cid) ((s.tables.clearPending cid).assignNumbers cid))
  | .disapprove cid => some (s.wrote (.disapprove cid) (s.tables.clearPending cid))
  | .purge cid randomComment =>
    some (s.wrote (.purge cid randomComment) (s.tables.purge cid randomComment))
  | .answer cid => some (s.wrote (.answer cid) (s.tables.assignNumbers cid))
  | .calculate updates =>
    if s.slice = [] then some { s with slice := calculated s.tables updates } else none
  | .upsert =>
    if ∀ row ∈ s.slice, Stored s.tables row.cid then
      some
        { s with
          tables :=
            { s.tables with
              commentUpdates := s.slice.foldl upsertCommentUpdate s.tables.commentUpdates }
          slice := [] }
    else none
  | .abandon => some { s with slice := [] }

end State

/-! ## What holds of the numbers -/

/-- The first of two comments has the smaller number. -/
def Before (t : DbTables) (k : Counter) (cid cid' : Cid) : Prop :=
  ∀ c ∈ t.comments, ∀ c' ∈ t.comments, c.cid = cid → c'.cid = cid' →
    ∀ n n', k.comment c = some n → k.comment c' = some n' → n < n'

/-- The numbers in a CommentUpdate are those of the comment. -/
def Agrees (t : DbTables) (row : CommentUpdatesRow) : Prop :=
  ∀ c ∈ t.comments, c.cid = row.cid → ∀ k : Counter, ∀ n, k.update row = some n → k.comment c = some n

structure Numbered (s : State) : Prop where
  unique : ∀ k : Counter, ∀ c ∈ s.tables.comments, ∀ c' ∈ s.tables.comments, ∀ n,
    k.comment c = some n → k.comment c' = some n → c = c'
  pending : ∀ c ∈ s.tables.comments, c.pendingApproval = true → ∀ k : Counter, k.comment c = none
  /-- The comments that are live have their numbers. -/
  live : ∀ c ∈ s.tables.comments, ∀ k : Counter,
    (k.comment c).isSome ↔ c.cid ∈ s.live ∧ k.Counts c
  /-- And they are in the order in which they went live. -/
  ordered : ∀ k, s.live.Pairwise (Before s.tables k)
  updates : ∀ row ∈ s.tables.commentUpdates, row.cid ∉ s.overtaken → Agrees s.tables row

/-- What the comment and its CommentUpdate had, they have. -/
structure Kept (cid : Cid) (s s' : State) : Prop where
  comment : ∀ c ∈ s.tables.comments, ∀ c' ∈ s'.tables.comments, c.cid = cid → c'.cid = cid →
    ∀ k : Counter, ∀ n, k.comment c = some n → k.comment c' = some n
  update : cid ∉ s.overtaken →
    ∀ row ∈ s.tables.commentUpdates, ∀ row' ∈ s'.tables.commentUpdates,
      row.cid = cid → row'.cid = cid →
        ∀ k : Counter, ∀ n, k.update row = some n → k.update row' = some n

/-- Steps that do not purge the comment. -/
def Stays (cid : Cid) (s : State) (e : Event) : Prop :=
  ∀ s', s.step e = some s' → Stored s'.tables cid

/-- A comment that gets a number gets one above all that are stored. -/
def InTurn (s s' : State) : Prop :=
  ∀ c' ∈ s'.tables.comments, ∀ k : Counter, ∀ n, k.comment c' = some n →
    (∃ c ∈ s.tables.comments, c.cid = c'.cid ∧ k.comment c = some n) ∨
    ∀ c ∈ s.tables.comments, ∀ m, k.comment c = some m → m < n

/-- No two comments ever have the same number. -/
def NeverAgain : Prop :=
  ∀ before after s s', Run State.step anyStep .empty before s → Run State.step anyStep s after s' →
    ∀ c ∈ s.tables.comments, ∀ c' ∈ s'.tables.comments, ∀ k : Counter, ∀ n,
      k.comment c = some n → k.comment c' = some n → c.cid = c'.cid

/-- The CommentUpdate of a comment that stays keeps its numbers. -/
def NeverChanges : Prop :=
  ∀ cid before after s s', Run State.step anyStep .empty before s →
    Run State.step (Stays cid) s after s' →
      ∀ row ∈ s.tables.commentUpdates, ∀ row' ∈ s'.tables.commentUpdates,
        row.cid = cid → row'.cid = cid →
          ∀ k : Counter, ∀ n, k.update row = some n → k.update row' = some n

/-! ## The next number -/

section Numbers

variable {t : DbTables} {c c' : CommentsTableRow} {cid : Cid} {k : Counter}

theorem lt_nextNumber {counted : CommentsTableRow → Bool} {number : CommentsTableRow → Option Nat}
    {n : Nat} (hc : c ∈ t.comments) (hcounted : counted c = true)
    (hpending : c.pendingApproval = false)
    (h : number c = some n) : n < t.nextNumber counted number := by
  refine Nat.lt_succ_of_le (List.le_max_of_le' 0 ?_ le_rfl)
  exact List.mem_filterMap.2 ⟨c, List.mem_filter.2 ⟨hc, by simp [hcounted, hpending]⟩, h⟩

/-- What a single row satisfies. -/
structure Sound (t : DbTables) : Prop where
  pending : ∀ c ∈ t.comments, c.pendingApproval = true → ∀ k : Counter, k.comment c = none
  counts : ∀ c ∈ t.comments, ∀ k : Counter, (k.comment c).isSome → k.Counts c
  positive : ∀ c ∈ t.comments, ∀ k : Counter, k.comment c ≠ some 0

theorem Sound.not_pending (h : Sound t) (hc : c ∈ t.comments) {n : Nat}
    (hn : k.comment c = some n) :
    c.pendingApproval = false := by
  cases hpending : c.pendingApproval with
  | false => rfl
  | true =>
    rw [h.pending c hc hpending k] at hn
    cases hn

theorem withNumbers_counts (h : Sound t) (hcounts : k.Counts c) :
    ∃ n, k.comment (withNumbers t c) = some (n + 1) ∧
      ∀ c ∈ t.comments, ∀ m, k.comment c = some m → m < n + 1 := by
  cases k with
  | number => exact ⟨_, rfl, fun c hc m hm => lt_nextNumber hc rfl (h.not_pending hc hm) hm⟩
  | postNumber =>
    refine ⟨_, if_pos hcounts, fun c hc m hm => lt_nextNumber hc ?_ (h.not_pending hc hm) hm⟩
    exact decide_eq_true (h.counts c hc .postNumber (by rw [hm]; rfl))

theorem withNumbers_not_counts (hcounts : ¬ k.Counts c) : k.comment (withNumbers t c) = none := by
  cases k with
  | number => exact absurd trivial hcounts
  | postNumber => exact if_neg hcounts

theorem mem_assignNumbers : c' ∈ (t.assignNumbers cid).comments ↔ ∃ c ∈ t.comments,
    (if c.cid = cid then
      if c.pendingApproval || (positive c.number).isSome then c else withNumbers t c
    else c) = c' :=
  List.mem_map

theorem mem_clearPending : c' ∈ (t.clearPending cid).comments ↔ ∃ c ∈ t.comments,
    (if c.cid = cid then { c with pendingApproval := false } else c) = c' :=
  List.mem_map

theorem counter_clear : k.comment { c with pendingApproval := false } = k.comment c := by
  cases k <;> rfl

end Numbers

/-! ## What a step does to the rows -/

/-- The row is one of `t`, which may have been taken out of the queue. -/
def KeptRow (t : DbTables) (c' : CommentsTableRow) : Prop :=
  ∃ c ∈ t.comments, c.cid = c'.cid ∧ c.depth = c'.depth ∧
    (c'.pendingApproval = true → c.pendingApproval = true) ∧ ∀ k : Counter, k.comment c = k.comment c'

/-- A new comment that has to be approved. -/
def PendingRow (t : DbTables) (c' : CommentsTableRow) : Prop :=
  ¬ Stored t c'.cid ∧ ∀ k : Counter, k.comment c' = none

/-- A row that has been given its numbers. -/
def GivenRow (t : DbTables) (c' : CommentsTableRow) : Prop :=
  c'.pendingApproval = false ∧
  (∀ c ∈ t.comments, c.cid = c'.cid → ∀ k : Counter, k.comment c = none) ∧
  ∀ k : Counter, (k.Counts c' → ∃ n, k.comment c' = some (n + 1) ∧
      ∀ c ∈ t.comments, ∀ m, k.comment c = some m → m < n + 1) ∧
    (¬ k.Counts c' → k.comment c' = none)

/-- What a step does to the comments, if it lets those of `given` go live. -/
structure Effect (s s' : State) (given : List Cid) : Prop where
  valid : s'.tables.Valid
  rows : ∀ c' ∈ s'.tables.comments,
    (KeptRow s.tables c' ∨ PendingRow s.tables c') ∧ c'.cid ∉ given ∨
    GivenRow s.tables c' ∧ given = [c'.cid]
  live : s'.live = s.live.filter (fun cid => Stored s'.tables cid) ++ given
  given : ∀ cid ∈ given, Stored s'.tables cid ∧ cid ∉ s.live

/-- The invariant. -/
structure Ok (s : State) : Prop where
  valid : s.tables.Valid
  positive : ∀ c ∈ s.tables.comments, ∀ k : Counter, k.comment c ≠ some 0
  nodup : s.live.Nodup
  stored : ∀ cid ∈ s.live, Stored s.tables cid
  live : ∀ c ∈ s.tables.comments, ∀ k : Counter,
    (k.comment c).isSome ↔ c.cid ∈ s.live ∧ k.Counts c
  pending : ∀ c ∈ s.tables.comments, c.pendingApproval = true → c.cid ∉ s.live
  ordered : ∀ k, s.live.Pairwise (Before s.tables k)

section Comments

variable {s s' : State} {given : List Cid} {c c' : CommentsTableRow} {cid : Cid}

theorem Ok.counter_none (h : Ok s) (hc : c ∈ s.tables.comments)
    (hlive : c.cid ∉ s.live) (k : Counter) :
    k.comment c = none := by
  rw [← Option.not_isSome_iff_eq_none, h.live c hc k]
  exact fun hboth => hlive hboth.1

theorem Ok.sound (h : Ok s) : Sound s.tables where
  pending c hc hpending k := h.counter_none hc (h.pending c hc hpending) k
  counts c hc k hsome := ((h.live c hc k).1 hsome).2
  positive := h.positive

theorem Ok.number_isSome (h : Ok s) (hc : c ∈ s.tables.comments) :
    (UpdateReads.positive c.number).isSome ↔ c.cid ∈ s.live := by
  have hlive := h.live c hc .number
  have hpositive := h.positive c hc .number
  simp only [Counter.comment, Counter.Counts, and_true] at hlive hpositive
  rw [← hlive, UpdateReads.positive]
  cases hnumber : c.number with
  | none => rfl
  | some n =>
    cases n with
    | zero => exact absurd hnumber hpositive
    | succ n => rfl

theorem Effect.mem_live (h : Effect s s' given) (hc' : c' ∈ s'.tables.comments) :
    c'.cid ∈ s'.live ↔ c'.cid ∈ s.live ∨ c'.cid ∈ given := by
  rw [h.live, List.mem_append, List.mem_filter, decide_eq_true_eq]
  exact or_congr_left (and_iff_left ⟨c', hc', rfl⟩)

theorem counts_congr {k : Counter} (h : c.depth = c'.depth) : k.Counts c ↔ k.Counts c' := by
  cases k with
  | number => exact Iff.rfl
  | postNumber => exact Eq.congr_left h

/-- **A step keeps the invariant.** -/
theorem Ok.of_effect (hs : Ok s) (h : Effect s s' given) (hgiven : given.Nodup) : Ok s' := by
  have hlive : ∀ c' ∈ s'.tables.comments, ∀ k : Counter,
      (k.comment c').isSome ↔ c'.cid ∈ s'.live ∧ k.Counts c' := by
    intro c' hc' k
    rw [h.mem_live hc']
    rcases h.rows c' hc' with ⟨⟨c, hc, hcid, hdepth, -, hsame⟩ | ⟨hnew, hnone⟩, hnot⟩ | ⟨hrow, heq⟩
    · rw [← hsame k, hs.live c hc k, or_iff_left hnot, hcid, counts_congr hdepth]
    · rw [hnone k]
      refine iff_of_false Bool.false_ne_true fun hboth => ?_
      exact hnew (hs.stored _ (hboth.1.resolve_right hnot))
    · rw [and_iff_right (.inr (by rw [heq]; exact List.mem_singleton_self _))]
      by_cases hcounts : k.Counts c'
      · obtain ⟨n, hn, -⟩ := (hrow.2.2 k).1 hcounts
        exact iff_of_true (by rw [hn]; rfl) hcounts
      · refine iff_of_false ?_ hcounts
        rw [(hrow.2.2 k).2 hcounts]
        exact Bool.false_ne_true
  refine ⟨h.valid, fun c' hc' k hzero => ?_, ?_, fun cid hcid => ?_, hlive, fun c' hc' hpending => ?_,
    fun k => ?_⟩
  · rcases h.rows c' hc' with ⟨⟨c, hc, -, -, -, hsame⟩ | ⟨-, hnone⟩, -⟩ | ⟨hrow, -⟩
    · exact hs.positive c hc k ((hsame k).trans hzero)
    · rw [hnone k] at hzero
      cases hzero
    · by_cases hcounts : k.Counts c'
      · obtain ⟨n, hn, -⟩ := (hrow.2.2 k).1 hcounts
        rw [hn] at hzero
        cases hzero
      · rw [(hrow.2.2 k).2 hcounts] at hzero
        cases hzero
  · rw [h.live]
    refine List.nodup_append'.2 ⟨hs.nodup.filter _, hgiven, fun cid hold hnew => ?_⟩
    exact (h.given cid hnew).2 (List.mem_filter.1 hold).1
  · rw [h.live] at hcid
    rcases List.mem_append.1 hcid with hold | hnew
    · simpa using (List.mem_filter.1 hold).2
    · exact (h.given cid hnew).1
  · rw [h.mem_live hc']
    rcases h.rows c' hc' with ⟨⟨c, hc, hcid, -, hpend, -⟩ | ⟨hnew, -⟩, hnot⟩ | ⟨hrow, -⟩
    · rw [← hcid] at hnot ⊢
      exact not_or.2 ⟨hs.pending c hc (hpend hpending), hnot⟩
    · exact not_or.2 ⟨fun hold => hnew (hs.stored _ hold), hnot⟩
    · rw [hrow.1] at hpending
      cases hpending
  · rw [h.live]
    -- Those that were live keep their numbers, and the new one has a number above theirs.
    have hold : ∀ c' ∈ s'.tables.comments, c'.cid ∈ s.live → ∃ c ∈ s.tables.comments,
        c.cid = c'.cid ∧ k.comment c = k.comment c' := by
      intro c' hc' hmem
      rcases h.rows c' hc' with ⟨⟨c, hc, hcid, -, -, hsame⟩ | ⟨hnew, -⟩, -⟩ | ⟨-, heq⟩
      · exact ⟨c, hc, hcid, hsame k⟩
      · exact absurd (hs.stored _ hmem) hnew
      · exact absurd hmem (h.given c'.cid (by rw [heq]; exact List.mem_singleton_self _)).2
    refine List.pairwise_append.2 ⟨?_, ?_, fun cid hcid cid' hcid' => ?_⟩
    · refine ((hs.ordered k).filter _).imp_of_mem
        fun {a b} ha hb hbefore c₁ hc₁ c₂ hc₂ h₁ h₂ n m hn hm => ?_
      obtain ⟨d₁, hd₁, hcid₁, hsame₁⟩ := hold c₁ hc₁ (by rw [h₁]; exact (List.mem_filter.1 ha).1)
      obtain ⟨d₂, hd₂, hcid₂, hsame₂⟩ := hold c₂ hc₂ (by rw [h₂]; exact (List.mem_filter.1 hb).1)
      exact hbefore d₁ hd₁ d₂ hd₂ (hcid₁.trans h₁) (hcid₂.trans h₂) n m (hsame₁.trans hn)
        (hsame₂.trans hm)
    · cases given with
      | nil => exact .nil
      | cons cid rest =>
        obtain ⟨c', hc', hcid⟩ := (h.given cid List.mem_cons_self).1
        rcases h.rows c' hc' with ⟨-, hnot⟩ | ⟨-, heq⟩
        · exact absurd (by rw [hcid]; exact List.mem_cons_self) hnot
        · rw [heq]
          exact List.pairwise_singleton _ _
    · intro c₁ hc₁ c₂ hc₂ h₁ h₂ n m hn hm
      obtain ⟨d₁, hd₁, -, hsame₁⟩ := hold c₁ hc₁ (by rw [h₁]; exact (List.mem_filter.1 hcid).1)
      rcases h.rows c₂ hc₂ with ⟨-, hnot⟩ | ⟨hrow, -⟩
      · exact absurd (by rwa [h₂]) hnot
      · by_cases hcounts : k.Counts c₂
        · obtain ⟨m', hm', hlt⟩ := (hrow.2.2 k).1 hcounts
          obtain rfl := Option.some.inj (hm.symm.trans hm')
          exact hlt d₁ hd₁ n (hsame₁.trans hn)
        · rw [(hrow.2.2 k).2 hcounts] at hm
          cases hm

end Comments

/-! ## The writes to the comments -/

section Writes

variable {t : DbTables} {s : State} {c c' row : CommentsTableRow} {cid : Cid}

theorem keptRow_self (hc : c ∈ t.comments) : KeptRow t c :=
  ⟨c, hc, rfl, rfl, fun h => h, fun _ => rfl⟩

/-- A change that leaves the keys of the rows. -/
theorem valid_updateComment {f : CommentsTableRow → CommentsTableRow} (h : t.Valid)
    (hf : ∀ c, (f c).rowid = c.rowid ∧ (f c).cid = c.cid ∧ (f c).authorName = c.authorName) :
    (t.updateComment cid f).Valid := by
  have hrow : ∀ c, (if c.cid = cid then f c else c).rowid = c.rowid := by
    intro c
    split
    · exact (hf c).1
    · rfl
  have hcid : ∀ c, (if c.cid = cid then f c else c).cid = c.cid := by
    intro c
    split
    · exact (hf c).2.1
    · rfl
  refine ⟨?_, ?_, h.moderationRowids, h.aliasCids, h.updateCids, fun c' hc' => ?_⟩
  · refine List.pairwise_map.2 (h.commentRowids.imp fun hlt => ?_)
    rwa [hrow, hrow]
  · rw [DbTables.updateComment, List.map_map]
    rw [show CommentsTableRow.cid ∘ (fun c => if c.cid = cid then f c else c) =
      CommentsTableRow.cid from funext hcid]
    exact h.commentCids
  · obtain ⟨c, hc, rfl⟩ := List.mem_map.1 hc'
    split
    · rw [(hf c).2.2]
      exact h.names c hc
    · exact h.names c hc

theorem valid_clearPending (h : t.Valid) : (t.clearPending cid).Valid :=
  valid_updateComment h fun _ => ⟨rfl, rfl, rfl⟩

theorem valid_assignNumbers (h : t.Valid) : (t.assignNumbers cid).Valid := by
  refine valid_updateComment h fun c => ?_
  split <;> exact ⟨rfl, rfl, rfl⟩

theorem valid_purge (h : t.Valid) (randomComment : Option Cid) :
    (t.purge cid randomComment).Valid := by
  refine ⟨h.commentRowids.filter _, ?_, h.moderationRowids, ?_, ?_, fun c hc => ?_⟩
  · exact h.commentCids.sublist (List.filter_sublist.map _)
  · exact h.aliasCids.sublist (List.filter_sublist.map _)
  · rw [DbTables.purge, DbTables.setPublished, List.map_map]
    refine (?_ : List.Nodup (List.map _ _))
    rw [List.map_congr_left (g := CommentUpdatesRow.cid) fun row _ => by
      rw [Function.comp_apply]
      split <;> rfl]
    exact h.updateCids.sublist (List.filter_sublist.map _)
  · exact h.names c (List.mem_filter.1 hc).1

theorem valid_insert (h : t.Valid) (hinsert : Insertable t row) (hcid : c.cid = row.cid)
    (hrowid : c.rowid = row.rowid) (hname : c.authorName = row.authorName) :
    DbTables.Valid { t with comments := t.comments ++ [c] } := by
  refine ⟨?_, ?_, h.moderationRowids, h.aliasCids, h.updateCids, fun c' hc' => ?_⟩
  · refine List.pairwise_append.2 ⟨h.commentRowids, List.pairwise_singleton _ _, fun a ha b hb => ?_⟩
    rw [List.mem_singleton.1 hb, hrowid]
    exact (hinsert.1 a ha).2
  · rw [List.map_append, List.map_singleton]
    refine List.nodup_append'.2 ⟨h.commentCids, List.nodup_singleton _, fun cid hmem hnew => ?_⟩
    obtain ⟨a, ha, heq⟩ := List.mem_map.1 hmem
    rw [List.mem_singleton.1 hnew, hcid] at heq
    exact (hinsert.1 a ha).1 heq
  · rcases List.mem_append.1 hc' with hold | hnew
    · exact h.names c' hold
    · rw [List.mem_singleton.1 hnew, hname]
      exact hinsert.2

theorem effect_store {s' : State} (hs : Ok s) (hstep : s.step (.store row) = some s') :
    Effect s s' (s.goesLive (.store row)) := by
  rw [State.step] at hstep
  split at hstep
  case isFalse => cases hstep
  rename_i hinsert
  cases hstep
  have hkeys : (numberedRow s.tables row).cid = row.cid ∧
      (numberedRow s.tables row).rowid = row.rowid ∧
      (numberedRow s.tables row).authorName = row.authorName := by
    rw [numberedRow]
    split <;> exact ⟨rfl, rfl, rfl⟩
  have hnew : ∀ c ∈ s.tables.comments, c.cid ≠ row.cid := fun c hc => (hinsert.1 c hc).1
  have hnotLive : row.cid ∉ s.live := fun hlive => by
    obtain ⟨c, hc, heq⟩ := hs.stored _ hlive
    exact hnew c hc heq
  have hgiven : ∀ cid ∈ s.goesLive (.store row), cid = row.cid := by
    rw [State.goesLive]
    split <;> simp
  refine ⟨valid_insert hs.valid hinsert hkeys.1 hkeys.2.1 hkeys.2.2, fun c' hc' => ?_, rfl,
    fun cid hcid => ?_⟩
  · rcases List.mem_append.1 hc' with hold | hlast
    · exact .inl ⟨.inl (keptRow_self hold), fun hmem => hnew c' hold (hgiven _ hmem)⟩
    · obtain rfl := List.mem_singleton.1 hlast
      rw [numberedRow, State.goesLive]
      split
      · refine .inl ⟨.inr ⟨fun ⟨c, hc, heq⟩ => hnew c hc heq, fun k => ?_⟩, List.not_mem_nil⟩
        cases k <;> rfl
      · rename_i hpending
        refine .inr ⟨⟨?_, fun c hc heq => absurd heq (hnew c hc), fun k => ⟨fun hcounts => ?_,
          fun hcounts => ?_⟩⟩, rfl⟩
        · simpa [withNumbers] using hpending
        · exact withNumbers_counts hs.sound (by cases k <;> exact hcounts)
        · exact withNumbers_not_counts fun h => hcounts (by cases k <;> exact h)
  · rw [hgiven cid hcid]
    exact ⟨⟨_, List.mem_append_right _ (List.mem_singleton_self _), hkeys.1⟩, hnotLive⟩

theorem goesLive_answer (hs : Ok s) (hc : c ∈ s.tables.comments) (heq : c.cid = cid) :
    s.goesLive (.answer cid) =
      if c.pendingApproval = false ∧ cid ∉ s.live then [cid] else [] := by
  have hrow : (∃ c ∈ s.tables.comments, c.cid = cid ∧ c.pendingApproval = false) ↔
      c.pendingApproval = false := by
    refine ⟨fun ⟨c₁, hc₁, heq₁, hpending⟩ => ?_, fun hpending => ⟨c, hc, heq, hpending⟩⟩
    rwa [hs.valid.eq_of_cid hc hc₁ (heq.trans heq₁.symm)]
  rw [State.goesLive]
  exact if_congr (and_congr_left' hrow) rfl rfl

theorem of_mem_goesLive_answer {cid' : Cid} (h : cid' ∈ s.goesLive (.answer cid)) :
    cid' = cid ∧ Stored s.tables cid ∧ cid ∉ s.live := by
  rw [State.goesLive] at h
  split at h
  · rename_i hlive
    obtain ⟨c, hc, heq, -⟩ := hlive.1
    exact ⟨List.mem_singleton.1 h, ⟨c, hc, heq⟩, hlive.2⟩
  · cases h

theorem stored_assignNumbers (h : Stored t cid) (cid' : Cid) :
    Stored (t.assignNumbers cid') cid := by
  obtain ⟨c, hc, rfl⟩ := h
  refine ⟨_, mem_assignNumbers.2 ⟨c, hc, rfl⟩, ?_⟩
  repeat' split
  all_goals rfl

theorem effect_answer (hs : Ok s) (cid : Cid) :
    Effect s (s.wrote (.answer cid) (s.tables.assignNumbers cid)) (s.goesLive (.answer cid)) := by
  refine ⟨valid_assignNumbers hs.valid, fun c' hc' => ?_, rfl, fun cid' hcid' => ?_⟩
  · obtain ⟨c, hc, rfl⟩ := mem_assignNumbers.1 hc'
    by_cases heq : c.cid = cid
    · rw [if_pos heq, goesLive_answer hs hc heq]
      have hlive : (UpdateReads.positive c.number).isSome ↔ cid ∈ s.live := by
        rw [hs.number_isSome hc, heq]
      split
      · rename_i hkeep
        refine .inl ⟨.inl (keptRow_self hc), ?_⟩
        rw [if_neg]
        · exact List.not_mem_nil
        · rintro ⟨hpending, hnew⟩
          rw [hpending, Bool.false_or] at hkeep
          exact hnew (hlive.1 hkeep)
      · rename_i hassign
        obtain ⟨hpending, hnumber⟩ : c.pendingApproval = false ∧ _ := by
          simpa only [Bool.or_eq_true, not_or, Bool.not_eq_true] using hassign
        have hnew : cid ∉ s.live := fun hmem => by
          rw [hlive.2 hmem] at hnumber
          cases hnumber
        rw [if_pos ⟨hpending, hnew⟩]
        refine .inr ⟨⟨hpending, fun c₁ hc₁ hcid k => ?_, fun k => ⟨fun hcounts => ?_,
          fun hcounts => ?_⟩⟩, congrArg (fun cid => [cid]) heq.symm⟩
        · have hcid : c₁.cid = cid := hcid.trans heq
          exact hs.counter_none hc₁ (by rwa [hcid]) k
        · exact withNumbers_counts hs.sound (by cases k <;> exact hcounts)
        · exact withNumbers_not_counts fun h => hcounts (by cases k <;> exact h)
    · rw [if_neg heq]
      exact .inl ⟨.inl (keptRow_self hc), fun hmem => heq (of_mem_goesLive_answer hmem).1⟩
  · obtain ⟨rfl, hstored, hnew⟩ := of_mem_goesLive_answer hcid'
    exact ⟨stored_assignNumbers hstored _, hnew⟩

theorem effect_disapprove (hs : Ok s) (cid : Cid) :
    Effect s (s.wrote (.disapprove cid) (s.tables.clearPending cid)) [] := by
  refine ⟨valid_clearPending hs.valid, fun c' hc' => .inl ⟨.inl ?_, List.not_mem_nil⟩, rfl,
    fun cid hmem => nomatch hmem⟩
  obtain ⟨c, hc, rfl⟩ := mem_clearPending.1 hc'
  split
  · exact ⟨c, hc, rfl, rfl, nofun, fun k => counter_clear.symm⟩
  · exact keptRow_self hc

theorem effect_purge (hs : Ok s) (cid : Cid) (randomComment : Option Cid) :
    Effect s (s.wrote (.purge cid randomComment) (s.tables.purge cid randomComment)) [] :=
  ⟨valid_purge hs.valid randomComment,
    fun _ hc' => .inl ⟨.inl (keptRow_self (List.mem_filter.1 hc').1), List.not_mem_nil⟩, rfl,
    fun _ hmem => nomatch hmem⟩

theorem filter_stored (hs : Ok s) (hstored : ∀ cid, Stored s.tables cid → Stored t cid) :
    s.live.filter (fun cid => Stored t cid) = s.live :=
  List.filter_eq_self.2 fun cid hcid => decide_eq_true (hstored cid (hs.stored cid hcid))

theorem stored_clearPending {cid' : Cid} : Stored (t.clearPending cid) cid' ↔ Stored t cid' := by
  constructor
  · rintro ⟨c', hc', rfl⟩
    obtain ⟨c, hc, rfl⟩ := mem_clearPending.1 hc'
    refine ⟨c, hc, ?_⟩
    split <;> rfl
  · rintro ⟨c, hc, rfl⟩
    refine ⟨_, mem_clearPending.2 ⟨c, hc, rfl⟩, ?_⟩
    split <;> rfl

/-- An approval takes the comment out of the queue, and then its numbers are given. -/
theorem approve_eq (hs : Ok s) (cid : Cid) :
    s.step (.approve cid) = (s.step (.disapprove cid)).bind fun s => s.step (.answer cid) := by
  have hlive : (s.wrote (.disapprove cid) (s.tables.clearPending cid)).live = s.live := by
    refine (List.append_nil _).trans ?_
    exact filter_stored hs fun _ => stored_clearPending.2
  have hgoes : (s.wrote (.disapprove cid) (s.tables.clearPending cid)).goesLive (.answer cid) =
      s.goesLive (.approve cid) := by
    rw [State.goesLive, State.goesLive, hlive]
    refine if_congr (and_congr_left' ⟨?_, ?_⟩) rfl rfl
    · rintro ⟨c', hc', heq, -⟩
      exact stored_clearPending.1 ⟨c', hc', heq⟩
    · rintro ⟨c, hc, heq⟩
      exact ⟨_, mem_clearPending.2 ⟨c, hc, rfl⟩, by rw [if_pos heq]; exact ⟨heq, rfl⟩⟩
  rw [State.step, State.step, Option.bind_some, State.step]
  conv_rhs => rw [State.wrote, hlive, hgoes]
  rfl

end Writes

/-! ## CommentUpdates -/

/-- The invariant of the CommentUpdates. -/
structure OkUpdates (s : State) : Prop where
  stored : ∀ row ∈ s.tables.commentUpdates, Stored s.tables row.cid
  updates : ∀ row ∈ s.tables.commentUpdates, row.cid ∉ s.overtaken → Agrees s.tables row
  slice : ∀ row ∈ s.slice, row.cid ∉ s.overtaken → Agrees s.tables row

/-- What a write to the comments does to the CommentUpdates. -/
structure UpdatesEffect (s s' : State) : Prop where
  slice : s'.slice = s.slice
  before : ∀ row' ∈ s'.tables.commentUpdates, Stored s'.tables row'.cid ∧
    ∃ row ∈ s.tables.commentUpdates, row.cid = row'.cid ∧ ∀ k : Counter, k.update row = k.update row'
  after : ∀ row ∈ s.tables.commentUpdates, Stored s'.tables row.cid →
    ∃ row' ∈ s'.tables.commentUpdates, row'.cid = row.cid ∧ ∀ k : Counter, k.update row = k.update row'
  overtaken : ∀ cid, Stored s.tables cid → (cid ∈ s'.overtaken ↔ cid ∈ s.overtaken)
  /-- A comment that is stored while an update is being signed for its cid is overtaken. -/
  fresh : ∀ row ∈ s.slice, row.cid ∉ s'.overtaken → Stored s'.tables row.cid → Stored s.tables row.cid

section Updates

variable {s s' : State} {given : List Cid} {t : DbTables} {c : CommentsTableRow}
  {row : CommentUpdatesRow}

/-- A row of a comment that was stored has the numbers that it had, or none before. -/
theorem Effect.comment (hs : Ok s) (h : Effect s s' given) (hc : c ∈ s.tables.comments)
    {c' : CommentsTableRow} (hc' : c' ∈ s'.tables.comments) (heq : c.cid = c'.cid)
    {k : Counter} {n : Nat}
    (hn : k.comment c = some n) : k.comment c' = some n := by
  rcases h.rows c' hc' with ⟨⟨c₁, hc₁, hcid, -, -, hsame⟩ | ⟨hnew, -⟩, -⟩ | ⟨hrow, -⟩
  · rw [← hsame k, ← hs.valid.eq_of_cid hc hc₁ (heq.trans hcid.symm)]
    exact hn
  · exact absurd ⟨c, hc, heq⟩ hnew
  · rw [hrow.2.1 c hc heq k] at hn
    cases hn

theorem Agrees.of_effect (hs : Ok s) (h : Effect s s' given) (hstored : Stored s.tables row.cid)
    (hrow : Agrees s.tables row) : Agrees s'.tables row := by
  intro c' hc' heq k n hn
  obtain ⟨c, hc, hcid⟩ := hstored
  exact h.comment hs hc hc' (hcid.trans heq.symm) (hrow c hc hcid k n hn)

theorem Agrees.congr {row' : CommentUpdatesRow} (h : Agrees t row) (hcid : row.cid = row'.cid)
    (hsame : ∀ k : Counter, k.update row = k.update row') : Agrees t row' :=
  fun c hc heq k n hn => h c hc (heq.trans hcid.symm) k n ((hsame k).trans hn)

theorem OkUpdates.of_effect (hs : Ok s) (hupdates : OkUpdates s) (h : Effect s s' given)
    (heffect : UpdatesEffect s s') : OkUpdates s' := by
  refine ⟨fun row' hrow' => (heffect.before row' hrow').1, fun row' hrow' hnot => ?_,
    fun row hrow hnot => ?_⟩
  · obtain ⟨-, row, hrow, hcid, hsame⟩ := heffect.before row' hrow'
    have hstored := hupdates.stored row hrow
    have hold : row.cid ∉ s.overtaken := by rwa [← heffect.overtaken _ hstored, hcid]
    exact ((hupdates.updates row hrow hold).of_effect hs h hstored).congr hcid hsame
  · rw [heffect.slice] at hrow
    intro c' hc' heq
    have hstored := heffect.fresh row hrow hnot ⟨c', hc', heq⟩
    have hold : row.cid ∉ s.overtaken := by rwa [← heffect.overtaken _ hstored]
    exact (hupdates.slice row hrow hold).of_effect hs h hstored c' hc' heq

/-- A write that leaves the CommentUpdates, and the comments they are of. -/
theorem updatesEffect_wrote (hupdates : OkUpdates s) {e : Event}
    (hrows : t.commentUpdates = s.tables.commentUpdates)
    (hstored : ∀ cid, Stored t cid ↔ Stored s.tables cid) : UpdatesEffect s (s.wrote e t) where
  slice := rfl
  before row hrow := by
    rw [State.wrote, hrows] at hrow
    exact ⟨(hstored _).2 (hupdates.stored row hrow), row, hrow, rfl, fun _ => rfl⟩
  after row hrow _ := ⟨row, by rwa [State.wrote, hrows], rfl, fun _ => rfl⟩
  overtaken _ _ := Iff.rfl
  fresh _ _ _ := (hstored _).1

theorem stored_assignNumbers_iff {cid cid' : Cid} :
    Stored (t.assignNumbers cid) cid' ↔ Stored t cid' := by
  refine ⟨fun ⟨c', hc', heq⟩ => ?_, fun h => stored_assignNumbers h cid⟩
  obtain ⟨c, hc, rfl⟩ := mem_assignNumbers.1 hc'
  refine ⟨c, hc, heq ▸ ?_⟩
  repeat' split
  all_goals rfl

theorem mem_commentUpdates_purge {cid : Cid} {randomComment : Option Cid}
    {row' : CommentUpdatesRow} :
    row' ∈ (t.purge cid randomComment).commentUpdates ↔
      ∃ row ∈ t.commentUpdates, row.cid ∉ t.allDescendantCids t.comments.length cid ∧
        ∃ published, { row with publishedToPostUpdatesMFS := published } = row' ∧
          published = if row.cid ∈ t.commentsToForceUpdate
              (t.allDescendantCids t.comments.length cid) ++ randomComment.toList then false
            else row.publishedToPostUpdatesMFS := by
  rw [DbTables.purge, DbTables.setPublished]
  refine List.mem_map.trans ⟨?_, ?_⟩
  · rintro ⟨row, hrow, rfl⟩
    obtain ⟨hrow, hkept⟩ := List.mem_filter.1 hrow
    refine ⟨row, hrow, by simpa using hkept, _, ?_, rfl⟩
    simp only [decide_eq_true_eq]
    split <;> rfl
  · rintro ⟨row, hrow, hkept, _, rfl, rfl⟩
    refine ⟨row, List.mem_filter.2 ⟨hrow, by simpa using hkept⟩, ?_⟩
    simp only [decide_eq_true_eq]
    split <;> rfl

theorem counter_published {k : Counter} {published : Bool} :
    k.update { row with publishedToPostUpdatesMFS := published } = k.update row := by
  cases k <;> rfl

theorem updatesEffect_purge (hupdates : OkUpdates s) (cid : Cid) (randomComment : Option Cid) :
    UpdatesEffect s (s.wrote (.purge cid randomComment) (s.tables.purge cid randomComment)) where
  slice := rfl
  before row' hrow' := by
    obtain ⟨row, hrow, hkept, published, rfl, -⟩ := mem_commentUpdates_purge.1 hrow'
    obtain ⟨c, hc, heq⟩ := hupdates.stored row hrow
    exact ⟨⟨c, List.mem_filter.2 ⟨hc, by simpa [heq] using hkept⟩, heq⟩, row, hrow, rfl,
      fun _ => counter_published.symm⟩
  after row hrow := by
    rintro ⟨c, hc, heq⟩
    have hkept : row.cid ∉ s.tables.allDescendantCids s.tables.comments.length cid := by
      simpa [heq] using (List.mem_filter.1 hc).2
    exact ⟨_, mem_commentUpdates_purge.2 ⟨row, hrow, hkept, _, rfl, rfl⟩, rfl,
      fun _ => counter_published.symm⟩
  overtaken _ _ := Iff.rfl
  fresh _ _ _ := fun ⟨c, hc, heq⟩ => ⟨c, (List.mem_filter.1 hc).1, heq⟩

theorem updatesEffect_store (hupdates : OkUpdates s) {row : CommentsTableRow}
    (hstep : s.step (.store row) = some s') : UpdatesEffect s s' := by
  rw [State.step] at hstep
  split at hstep
  case isFalse => cases hstep
  rename_i hinsert
  cases hstep
  have hold : ∀ cid, Stored s.tables cid →
      Stored { s.tables with comments := s.tables.comments ++ [numberedRow s.tables row] } cid :=
    fun cid ⟨c, hc, heq⟩ => ⟨c, List.mem_append_left _ hc, heq⟩
  refine ⟨rfl, fun row' hrow' => ⟨hold _ (hupdates.stored row' hrow'), row', hrow', rfl, fun _ => rfl⟩,
    fun row hrow _ => ⟨row, hrow, rfl, fun _ => rfl⟩, fun cid hcid => ?_, fun update hupdate hnot => ?_⟩
  · have hne : cid ≠ row.cid := by
      obtain ⟨c, hc, rfl⟩ := hcid
      exact (hinsert.1 c hc).1
    dsimp only
    split <;> simp [hne]
  · rintro ⟨c, hc, heq⟩
    rcases List.mem_append.1 hc with hc | hlast
    · exact ⟨c, hc, heq⟩
    · have hcid : update.cid = row.cid := by
        rw [← heq, List.mem_singleton.1 hlast, numberedRow]
        split <;> rfl
      refine absurd ?_ hnot
      dsimp only
      rw [if_pos (List.any_eq_true.2 ⟨update, hupdate, decide_eq_true hcid⟩), hcid]
      exact List.mem_cons_self

theorem eq_some_of_positive {number : Option Nat} {n : Nat} (h : positive number = some n) :
    number = some n :=
  (Option.filter_eq_some_iff.1 h).1

theorem orElse_eq_some {a b : Option Nat} {n : Nat} (h : (a <|> b) = some n) :
    a = some n ∨ b = some n := by
  cases a with
  | none => exact .inr h
  | some m => exact .inl h

theorem eq_some_of_numbers {n : Nat} :
    (c.numbers.number = some n → c.number = some n) ∧
      (c.numbers.postNumber = some n → c.postNumber = some n) := by
  rw [CommentsTableRow.numbers]
  cases hpending : c.pendingApproval with
  | true => exact ⟨nofun, nofun⟩
  | false => exact ⟨eq_some_of_positive, eq_some_of_positive⟩

/-- The numbers that are calculated for a comment are its own. -/
theorem agrees_calculated (hs : Ok s) (hupdates : OkUpdates s) {updates : List CommentUpdatesRow}
    (hrow : row ∈ calculated s.tables updates) (hnot : row.cid ∉ s.overtaken) :
    Agrees s.tables row := by
  rw [calculated] at hrow
  obtain ⟨row₀, hrow₀, hmap⟩ := List.mem_filterMap.1 hrow
  obtain ⟨numbers, hnumbers, rfl⟩ := Option.map_eq_some_iff.1 hmap
  intro c hc heq k n hn
  have hmem : c.cid ∈ updates.map (·.cid) := List.mem_map.2 ⟨row₀, hrow₀, heq.symm⟩
  rw [← show c.cid = row₀.cid from heq,
    DbTables.queryCommentNumbersByCids_eq hs.valid hc hmem] at hnumbers
  obtain rfl := Option.some.inj hnumbers
  -- What the row lacks is read from the CommentUpdate that is stored, which has the same numbers.
  have hstored : ∀ stored, s.tables.updateOf c.cid = some stored → ∀ m, k.update stored = some m →
      k.comment c = some m := by
    intro stored hfind m hm
    have hcid : stored.cid = c.cid := by simpa using List.find?_some hfind
    exact hupdates.updates stored (List.mem_of_find?_eq_some hfind)
      (by rw [hcid]; exact fun h => hnot (heq ▸ h)) c hc hcid.symm k m hm
  rw [DbTables.commentNumbers] at hn
  generalize hfind : (if c.needsStoredNumbers then s.tables.updateOf c.cid else none) = found at hn
  cases found with
  | none =>
    cases k with
    | number => exact eq_some_of_numbers.1 hn
    | postNumber => exact eq_some_of_numbers.2 hn
  | some stored =>
    have hfind : s.tables.updateOf c.cid = some stored := by
      split at hfind
      · exact hfind
      · cases hfind
    cases k with
    | number =>
      rcases orElse_eq_some hn with hn | hn
      · exact eq_some_of_numbers.1 hn
      · exact hstored stored hfind n (eq_some_of_positive hn)
    | postNumber =>
      dsimp only [Counter.update, CommentsTableRow.numbersWith] at hn
      split at hn
      · rcases orElse_eq_some hn with hn | hn
        · exact eq_some_of_numbers.2 hn
        · exact hstored stored hfind n (eq_some_of_positive hn)
      · exact eq_some_of_numbers.2 hn

theorem counter_over {k : Counter} {update : CommentUpdatesRow} :
    k.update (update.over row) = (k.update update <|> k.update row) := by
  cases k <;> rfl

theorem mem_upsertCommentUpdate {rows : List CommentUpdatesRow} {update row' : CommentUpdatesRow}
    (h : row' ∈ upsertCommentUpdate rows update) :
    row' ∈ rows ∨ row' = update ∨ ∃ row ∈ rows, row.cid = update.cid ∧ row' = update.over row := by
  rw [upsertCommentUpdate] at h
  split at h
  · obtain ⟨row, hrow, rfl⟩ := List.mem_map.1 h
    split
    · rename_i heq
      exact .inr (.inr ⟨row, hrow, heq, rfl⟩)
    · exact .inl hrow
  · rcases List.mem_append.1 h with hrow | hlast
    · exact .inl hrow
    · exact .inr (.inl (List.mem_singleton.1 hlast))

theorem upsertCommentUpdate_keeps {rows : List CommentUpdatesRow} (update : CommentUpdatesRow)
    (hrow : row ∈ rows) {k : Counter} (hsome : (k.update row).isSome) :
    ∃ row' ∈ upsertCommentUpdate rows update, row'.cid = row.cid ∧ (k.update row').isSome := by
  rw [upsertCommentUpdate]
  split
  · refine ⟨_, List.mem_map.2 ⟨row, hrow, rfl⟩, ?_⟩
    split
    · rename_i heq
      refine ⟨heq.symm, ?_⟩
      rw [counter_over]
      cases k.update update with
      | none => exact hsome
      | some n => rfl
    · exact ⟨rfl, hsome⟩
  · exact ⟨row, List.mem_append_left _ hrow, rfl, hsome⟩

theorem nodup_upsertCommentUpdate {rows : List CommentUpdatesRow} {update : CommentUpdatesRow}
    (h : (rows.map (·.cid)).Nodup) : ((upsertCommentUpdate rows update).map (·.cid)).Nodup := by
  rw [upsertCommentUpdate]
  split
  · rw [List.map_map, List.map_congr_left (g := (·.cid))]
    · exact h
    · intro row _
      rw [Function.comp_apply]
      split
      · rename_i heq
        exact heq.symm
      · rfl
  · rename_i hnew
    rw [List.map_append, List.map_singleton]
    refine List.nodup_append'.2 ⟨h, List.nodup_singleton _, fun cid hmem hlast => hnew ?_⟩
    obtain ⟨row, hrow, heq⟩ := List.mem_map.1 hmem
    rw [List.mem_singleton.1 hlast] at heq
    exact List.any_eq_true.2 ⟨row, hrow, decide_eq_true heq⟩

theorem nodup_upserts {rows updates : List CommentUpdatesRow} (h : (rows.map (·.cid)).Nodup) :
    ((updates.foldl upsertCommentUpdate rows).map (·.cid)).Nodup := by
  induction updates generalizing rows with
  | nil => exact h
  | cons update updates ih => exact ih (nodup_upsertCommentUpdate h)

/-- What the rows have in common, if an update that is written over a row has it too. -/
theorem forall_upserts {P : CommentUpdatesRow → Prop} (rows updates : List CommentUpdatesRow)
    (hover : ∀ row update, row.cid = update.cid → P row → P update → P (update.over row))
    (hrows : ∀ row ∈ rows, P row) (hupdates : ∀ row ∈ updates, P row) :
    ∀ row ∈ updates.foldl upsertCommentUpdate rows, P row := by
  induction updates generalizing rows with
  | nil => exact hrows
  | cons update updates ih =>
    refine ih _ (fun row' hrow' => ?_) fun row hrow => hupdates row (List.mem_cons_of_mem _ hrow)
    have hupdate := hupdates update List.mem_cons_self
    rcases mem_upsertCommentUpdate hrow' with hrow | rfl | ⟨row, hrow, heq, rfl⟩
    · exact hrows row' hrow
    · exact hupdate
    · exact hover row update heq (hrows row hrow) hupdate

theorem upserts_keep {rows updates : List CommentUpdatesRow} (hrow : row ∈ rows) {k : Counter}
    (hsome : (k.update row).isSome) :
    ∃ row' ∈ updates.foldl upsertCommentUpdate rows, row'.cid = row.cid ∧ (k.update row').isSome := by
  induction updates generalizing rows row with
  | nil => exact ⟨row, hrow, rfl, hsome⟩
  | cons update updates ih =>
    obtain ⟨row₁, hrow₁, hcid₁, hsome₁⟩ := upsertCommentUpdate_keeps update hrow hsome
    obtain ⟨row', hrow', hcid', hsome'⟩ := ih hrow₁ hsome₁
    exact ⟨row', hrow', hcid'.trans hcid₁, hsome'⟩

theorem Agrees.over {update : CommentUpdatesRow} (heq : row.cid = update.cid) (hrow : Agrees t row)
    (hupdate : Agrees t update) : Agrees t (update.over row) := by
  intro c hc hcid k n hn
  rw [counter_over] at hn
  rcases orElse_eq_some hn with hn | hn
  · exact hupdate c hc hcid k n hn
  · exact hrow c hc (hcid.trans heq.symm) k n hn

end Updates

/-! ## Steps -/

/-- What a step keeps. -/
structure Keeps (s s' : State) : Prop where
  ok : Ok s'
  updates : OkUpdates s'
  comment : ∀ c ∈ s.tables.comments, ∀ c' ∈ s'.tables.comments, c.cid = c'.cid →
    ∀ k : Counter, ∀ n, k.comment c = some n → k.comment c' = some n
  overtaken : ∀ cid, Stored s.tables cid → cid ∉ s.overtaken → cid ∉ s'.overtaken
  update : ∀ row ∈ s.tables.commentUpdates, Stored s'.tables row.cid →
    ∀ k : Counter, (k.update row).isSome →
      ∃ row' ∈ s'.tables.commentUpdates, row'.cid = row.cid ∧ (k.update row').isSome
  inTurn : InTurn s s'

section Steps

variable {s s' s'' : State} {given : List Cid} {e : Event}

theorem Keeps.of_effect (hs : Ok s) (hupdates : OkUpdates s) (h : Effect s s' given)
    (hgiven : given.Nodup) (heffect : UpdatesEffect s s') : Keeps s s' where
  ok := hs.of_effect h hgiven
  updates := hupdates.of_effect hs h heffect
  comment _ hc _ hc' heq _ _ hn := h.comment hs hc hc' heq hn
  overtaken cid hcid := mt (heffect.overtaken cid hcid).1
  update row hrow hstored k hsome := by
    obtain ⟨row', hrow', hcid, hsame⟩ := heffect.after row hrow hstored
    exact ⟨row', hrow', hcid, by rwa [← hsame k]⟩
  inTurn c' hc' k n hn := by
    rcases h.rows c' hc' with ⟨⟨c, hc, hcid, -, -, hsame⟩ | ⟨-, hnone⟩, -⟩ | ⟨hrow, -⟩
    · exact .inl ⟨c, hc, hcid, (hsame k).trans hn⟩
    · rw [hnone k] at hn
      cases hn
    · by_cases hcounts : k.Counts c'
      · obtain ⟨m, hm, hlt⟩ := (hrow.2.2 k).1 hcounts
        rw [hn] at hm
        obtain rfl := Option.some.inj hm
        exact .inr hlt
      · rw [(hrow.2.2 k).2 hcounts] at hn
        cases hn

/-- Two steps that leave the same comments stored. -/
theorem Keeps.trans (h : Keeps s s') (h' : Keeps s' s'')
    (hstored : ∀ cid, Stored s'.tables cid ↔ Stored s.tables cid)
    (hstored' : ∀ cid, Stored s''.tables cid ↔ Stored s'.tables cid) : Keeps s s'' where
  ok := h'.ok
  updates := h'.updates
  comment c hc c'' hc'' heq k n hn := by
    obtain ⟨c', hc', hcid⟩ := (hstored c.cid).2 ⟨c, hc, rfl⟩
    exact h'.comment c' hc' c'' hc'' (hcid.trans heq) k n (h.comment c hc c' hc' hcid.symm k n hn)
  overtaken cid hcid hnot := h'.overtaken cid ((hstored cid).2 hcid) (h.overtaken cid hcid hnot)
  update row hrow hcid k hsome := by
    obtain ⟨row', hrow', heq, hsome'⟩ := h.update row hrow ((hstored' _).1 hcid) k hsome
    obtain ⟨row'', hrow'', heq', hsome''⟩ := h'.update row' hrow' (heq ▸ hcid) k hsome'
    exact ⟨row'', hrow'', heq'.trans heq, hsome''⟩
  inTurn c'' hc'' k n hn := by
    rcases h'.inTurn c'' hc'' k n hn with ⟨c', hc', hcid', hn'⟩ | hlt
    · rcases h.inTurn c' hc' k n hn' with ⟨c, hc, hcid, hn⟩ | hlt
      · exact .inl ⟨c, hc, hcid.trans hcid', hn⟩
      · exact .inr hlt
    · refine .inr fun c hc m hm => ?_
      obtain ⟨c', hc', hcid⟩ := (hstored c.cid).2 ⟨c, hc, rfl⟩
      exact hlt c' hc' m (h.comment c hc c' hc' hcid.symm k m hm)

/-- A step that leaves the comments. -/
theorem Keeps.of_comments (hs : Ok s) (hcomments : s'.tables.comments = s.tables.comments)
    (hlive : s'.live = s.live) (hvalid : s'.tables.Valid) (hovertaken : s'.overtaken = s.overtaken)
    (hupdates : OkUpdates s')
    (hkept : ∀ row ∈ s.tables.commentUpdates, ∀ k : Counter, (k.update row).isSome →
      ∃ row' ∈ s'.tables.commentUpdates, row'.cid = row.cid ∧ (k.update row').isSome) :
    Keeps s s' where
  ok := by
    refine ⟨hvalid, ?_, ?_, ?_, ?_, ?_, ?_⟩
    · rw [hcomments]
      exact hs.positive
    · rw [hlive]
      exact hs.nodup
    · rw [hlive]
      intro cid hcid
      rw [Stored, hcomments]
      exact hs.stored cid hcid
    · rw [hcomments, hlive]
      exact hs.live
    · rw [hcomments, hlive]
      exact hs.pending
    · rw [hlive]
      refine fun k => (hs.ordered k).imp fun hbefore => ?_
      rw [Before, hcomments]
      exact hbefore
  updates := hupdates
  comment c hc c' hc' heq k n hn := by
    rw [hcomments] at hc'
    rwa [← hs.valid.eq_of_cid hc hc' heq]
  overtaken _ _ hnot := by rwa [hovertaken]
  update row hrow _ := hkept row hrow
  inTurn c' hc' k n hn := .inl ⟨c', hcomments ▸ hc', rfl, hn⟩

theorem keeps_disapprove (hs : Ok s) (hupdates : OkUpdates s) (cid : Cid) :
    Keeps s (s.wrote (.disapprove cid) (s.tables.clearPending cid)) :=
  .of_effect hs hupdates (effect_disapprove hs cid) .nil
    (updatesEffect_wrote hupdates rfl fun _ => stored_clearPending)

theorem keeps_answer (hs : Ok s) (hupdates : OkUpdates s) (cid : Cid) :
    Keeps s (s.wrote (.answer cid) (s.tables.assignNumbers cid)) := by
  refine .of_effect hs hupdates (effect_answer hs cid) ?_
    (updatesEffect_wrote hupdates rfl fun _ => stored_assignNumbers_iff)
  rw [State.goesLive]
  split
  · exact List.nodup_singleton _
  · exact .nil

/-- **Every step keeps it.** -/
theorem Keeps.of_step (hs : Ok s) (hupdates : OkUpdates s) (h : s.step e = some s') :
    Keeps s s' := by
  cases e with
  | store row =>
    refine .of_effect hs hupdates (effect_store hs h) ?_ (updatesEffect_store hupdates h)
    rw [State.goesLive]
    split
    · exact .nil
    · exact List.nodup_singleton _
  | approve cid =>
    rw [approve_eq hs, State.step, Option.bind_some, State.step] at h
    cases h
    have hfirst := keeps_disapprove hs hupdates cid
    exact hfirst.trans (keeps_answer hfirst.ok hfirst.updates cid) (fun _ => stored_clearPending)
      fun _ => stored_assignNumbers_iff
  | disapprove cid =>
    cases h
    exact keeps_disapprove hs hupdates cid
  | purge cid randomComment =>
    cases h
    exact .of_effect hs hupdates (effect_purge hs cid randomComment) .nil
      (updatesEffect_purge hupdates cid randomComment)
  | answer cid =>
    cases h
    exact keeps_answer hs hupdates cid
  | calculate updates =>
    rw [State.step] at h
    split at h
    case isFalse => cases h
    cases h
    exact .of_comments hs rfl rfl hs.valid rfl
      ⟨hupdates.stored, hupdates.updates,
      fun row hrow hnot => agrees_calculated (s := s) hs hupdates hrow hnot⟩
      fun row hrow k hsome => ⟨row, hrow, rfl, hsome⟩
  | upsert =>
    rw [State.step] at h
    split at h
    case isFalse => cases h
    rename_i hstored
    cases h
    have hrows := forall_upserts s.tables.commentUpdates s.slice
      (P := fun row => Stored s.tables row.cid ∧ (row.cid ∉ s.overtaken → Agrees s.tables row))
      (fun row update heq hrow hupdate =>
        ⟨hupdate.1, fun hnot => .over heq (hrow.2 (by rwa [heq])) (hupdate.2 hnot)⟩)
      (fun row hrow => ⟨hupdates.stored row hrow, hupdates.updates row hrow⟩)
      fun row hrow => ⟨hstored row hrow, hupdates.slice row hrow⟩
    refine .of_comments hs rfl rfl
      ⟨hs.valid.commentRowids, hs.valid.commentCids, hs.valid.moderationRowids, hs.valid.aliasCids,
        nodup_upserts hs.valid.updateCids, hs.valid.names⟩ rfl
      ⟨fun row hrow => (hrows row hrow).1, fun row hrow => (hrows row hrow).2,
      fun row hrow => nomatch hrow⟩
      fun row hrow k hsome => upserts_keep hrow hsome
  | abandon =>
    cases h
    exact .of_comments hs rfl rfl hs.valid rfl
      ⟨hupdates.stored, hupdates.updates, fun row hrow => nomatch hrow⟩
      fun row hrow k hsome => ⟨row, hrow, rfl, hsome⟩

theorem ok_empty : Ok .empty ∧ OkUpdates .empty := by
  refine ⟨⟨⟨.nil, .nil, .nil, .nil, .nil, ?_⟩, ?_, .nil, ?_, ?_, ?_, fun _ => .nil⟩, ?_, ?_, ?_⟩
  all_goals exact fun _ hmem => nomatch hmem

theorem ok_of_run {es : List Event} (hrun : Run State.step anyStep .empty es s) :
    Ok s ∧ OkUpdates s := by
  refine hrun.invariant (I := fun s => Ok s ∧ OkUpdates s) (fun s e s' hok _ hstep => ?_) ok_empty
  have hkeeps := Keeps.of_step hok.1 hok.2 hstep
  exact ⟨hkeeps.ok, hkeeps.updates⟩

theorem Ok.before_or_before (hs : Ok s) (k : Counter) {cid cid' : Cid} (h : cid ∈ s.live)
    (h' : cid' ∈ s.live) (hne : cid ≠ cid') :
    Before s.tables k cid cid' ∨ Before s.tables k cid' cid := by
  have : Std.Symm fun cid cid' => Before s.tables k cid cid' ∨ Before s.tables k cid' cid :=
    ⟨fun _ _ => Or.symm⟩
  have hpairs : s.live.Pairwise fun cid cid' =>
      Before s.tables k cid cid' ∨ Before s.tables k cid' cid := (hs.ordered k).imp .inl
  exact hpairs.forall h h' hne

theorem Numbered.of_ok (hs : Ok s) (hupdates : OkUpdates s) : Numbered s where
  __ := hs
  unique k c hc c' hc' n hn hn' := by
    by_contra hne
    have hmem : ∀ c ∈ s.tables.comments, k.comment c = some n → c.cid ∈ s.live := fun c hc hn =>
      ((hs.live c hc k).1 (by rw [hn]; rfl)).1
    have hcids : c.cid ≠ c'.cid := mt (hs.valid.eq_of_cid hc hc') hne
    rcases hs.before_or_before k (hmem c hc hn) (hmem c' hc' hn') hcids with hbefore | hbefore
    · exact Nat.lt_irrefl n (hbefore c hc c' hc' rfl rfl n n hn hn')
    · exact Nat.lt_irrefl n (hbefore c' hc' c hc rfl rfl n n hn' hn)
  pending c hc hpending k := hs.counter_none hc (hs.pending c hc hpending) k
  updates := hupdates.updates

variable {cid : Cid} {es : List Event}

/-- What a comment that stays has at the end. -/
theorem kept_of_run (hs : Ok s) (hupdates : OkUpdates s)
    (hrun : Run State.step (Stays cid) s es s') :
    Kept cid s s' := by
  have hcomment : ∀ c ∈ s.tables.comments, c.cid = cid → ∀ k : Counter, ∀ n, k.comment c = some n →
      (Ok s' ∧ OkUpdates s') ∧ ∃ c' ∈ s'.tables.comments, c'.cid = cid ∧ k.comment c' = some n := by
    intro c hc hcid k n hn
    refine hrun.invariant (I := fun s => (Ok s ∧ OkUpdates s) ∧
      ∃ c ∈ s.tables.comments, c.cid = cid ∧ k.comment c = some n) ?_ ⟨⟨hs, hupdates⟩, c, hc, hcid, hn⟩
    rintro s e s' ⟨⟨hs, hupdates⟩, c, hc, hcid, hn⟩ hstays hstep
    have hkeeps := Keeps.of_step hs hupdates hstep
    obtain ⟨c', hc', hcid'⟩ := hstays s' hstep
    exact ⟨⟨hkeeps.ok, hkeeps.updates⟩, c', hc', hcid',
      hkeeps.comment c hc c' hc' (hcid.trans hcid'.symm) k n hn⟩
  have hvalue : ∀ c ∈ s.tables.comments, ∀ c' ∈ s'.tables.comments, c.cid = cid → c'.cid = cid →
      ∀ k : Counter, ∀ n, k.comment c = some n → k.comment c' = some n := by
    intro c hc c' hc' hcid hcid' k n hn
    obtain ⟨⟨hs', -⟩, d, hd, hcid'', hn'⟩ := hcomment c hc hcid k n hn
    rwa [hs'.valid.eq_of_cid hc' hd (hcid'.trans hcid''.symm)]
  refine ⟨hvalue, fun hnot row hrow row' hrow' hcid hcid' k n hn => ?_⟩
  obtain ⟨c, hc, heq⟩ := hupdates.stored row hrow
  have hcn : k.comment c = some n := hupdates.updates row hrow (by rwa [hcid]) c hc heq k n hn
  obtain ⟨⟨⟨hs', hupdates'⟩, hnot'⟩, row₁, hrow₁, hcid₁, hsome₁⟩ := hrun.invariant
    (I := fun s => ((Ok s ∧ OkUpdates s) ∧ Stored s.tables cid ∧ cid ∉ s.overtaken) ∧
      ∃ row ∈ s.tables.commentUpdates, row.cid = cid ∧ (k.update row).isSome)
    (by
      rintro s e s' ⟨⟨⟨hs, hupdates⟩, hstored, hnot⟩, row, hrow, hcid, hsome⟩ hstays hstep
      have hkeeps := Keeps.of_step hs hupdates hstep
      have hstored' := hstays s' hstep
      obtain ⟨row', hrow', hcid', hsome'⟩ := hkeeps.update row hrow (hcid ▸ hstored') k hsome
      exact ⟨⟨⟨hkeeps.ok, hkeeps.updates⟩, hstored', hkeeps.overtaken cid hstored hnot⟩, row', hrow',
        hcid'.trans hcid, hsome'⟩)
    ⟨⟨⟨hs, hupdates⟩, ⟨c, hc, heq.trans hcid⟩, hnot⟩, row, hrow, hcid, by rw [hn]; rfl⟩
  rw [List.inj_on_of_nodup_map hs'.valid.updateCids hrow' hrow₁ (hcid'.trans hcid₁.symm)]
  obtain ⟨m, hm⟩ := Option.isSome_iff_exists.1 hsome₁
  obtain ⟨c', hc', heq'⟩ := hupdates'.stored row₁ hrow₁
  have hcm : k.comment c' = some m :=
    hupdates'.updates row₁ hrow₁ (by rw [hcid₁]; exact hnot'.2) c' hc' heq' k m hm
  rw [hm, ← hcm]
  exact hvalue c hc c' hc' (heq.trans hcid) (heq'.trans hcid₁) k n hcn

/-- **The numbers of comments.**  No two comments have the same, and none that waits for approval
has one; they follow the order in which the comments went live, stay what they are while the comment
is stored, and are given above all that are stored. -/
theorem numbered (hrun : Run State.step anyStep .empty es s) :
    Numbered s ∧
    (∀ cid after s', Run State.step (Stays cid) s after s' → Kept cid s s') ∧
    ∀ e s', s.step e = some s' → InTurn s s' := by
  obtain ⟨hs, hupdates⟩ := ok_of_run hrun
  exact ⟨.of_ok hs hupdates, fun _ _ _ hafter => kept_of_run hs hupdates hafter,
    fun _ _ hstep => (Keeps.of_step hs hupdates hstep).inTurn⟩

end Steps

/-! ## A number that is given again -/

def posted (rowid : Nat) (cid : Cid) (pendingApproval : Bool) : CommentsTableRow where
  rowid := rowid
  cid := cid
  parentCid := none
  depth := 0
  timestamp := 0
  authorSignerAddress := "author"
  authorName := none
  communityPublicKey := none
  communityName := none
  pendingApproval := pendingApproval
  number := none
  postNumber := none
  challengeCommentUpdate := .nothing
  insertedAt := 0

def reply (rowid : Nat) (cid parentCid : Cid) : CommentsTableRow :=
  { posted rowid cid false with parentCid := some parentCid, depth := 1 }

def updated (cid : Cid) : CommentUpdatesRow where
  cid := cid
  deleted := none
  removed := none
  approved := none
  childCount := none
  lastChildCid := none
  number := none
  postNumber := none
  replies := []
  updatedAt := 1
  insertedAt := 0
  publishedToPostUpdatesMFS := false

/-- A post is stored, another one waits for approval, and both get updates. -/
theorem numbered_posts : ∃ s, Numbered s ∧
    s.tables.comments.map (·.number) = [some 1, some 2] ∧
    s.tables.commentUpdates.map (·.number) = [some 1, some 2] :=
  ⟨_, (numbered (.cons (a := .store (posted 1 "a" false)) trivial rfl <|
    .cons (a := .store (posted 2 "b" true)) trivial rfl <|
    .cons (a := .approve "b") trivial rfl <|
    .cons (a := .calculate [updated "a", updated "b"]) trivial rfl <|
    .cons (a := .upsert) trivial rfl <| .nil _)).1, by decide +kernel, by decide +kernel⟩

theorem not_neverAgain : ¬ NeverAgain := by
  intro h
  have heq := h _ _ _ _ (.cons (a := .store (posted 1 "a" false)) trivial rfl (.nil _))
    (.cons (a := .purge "a" none) trivial rfl <|
      .cons (a := .store (posted 2 "b" false)) trivial rfl (.nil _))
    _ (.head _) _ (.head _) .number 1 rfl rfl
  exact absurd heq (by decide)

theorem not_neverChanges : ¬ NeverChanges := by
  intro h
  have heq := h "a" _ _ _ _
    (.cons (a := .store (posted 1 "p" false)) trivial rfl <|
      .cons (a := .store (posted 2 "a" false)) trivial rfl <|
      .cons (a := .calculate [updated "a"]) trivial rfl <|
      .cons (a := .purge "a" none) trivial rfl <|
      .cons (a := .store (reply 3 "b" "p")) trivial rfl <|
      .cons (a := .store (posted 4 "a" false)) trivial rfl <|
      .cons (a := .upsert) trivial rfl <| .nil _)
    (.cons (a := .calculate [updated "a"])
      (by rintro _ ⟨⟩; exact ⟨_, .tail _ (.tail _ (.head _)), rfl⟩) rfl <|
      .cons (a := .upsert) (by rintro _ ⟨⟩; exact ⟨_, .tail _ (.tail _ (.head _)), rfl⟩) rfl <|
      .nil _)
    _ (.head _) _ (.head _) rfl rfl .number 2 rfl
  exact absurd heq (by decide +kernel)

/-- **A number is given again, and one changes.**  The only post is purged, and the next one gets
its number.  A post is purged while its update is being signed, a reply to another post gets its
number, and the post is stored again: the update that is written has the number of the reply. -/
theorem not_neverAgain_not_neverChanges : ¬ NeverAgain ∧ ¬ NeverChanges :=
  ⟨not_neverAgain, not_neverChanges⟩

end Numbering
end Pkc

import Pkc.Database.Duplicates

/-!
# Transactions in transactions

`createTransaction`, `commitTransaction` and `rollbackTransaction` may be nested, but SQLite has one
transaction only: the handler counts how deep it is, and begins, commits and rolls back at the
outermost level.  A level that is rolled back inside another one undoes nothing.

* `Calls W` is a sequence of calls in which the levels are well-bracketed, `Calls.calls` are the
  calls one after the other, and `Call.op` is what each of them does.
* `AllOrNothing` says what transactions in transactions are for: what is written in a level that is
  rolled back is not in the database afterwards, and everything else is.
* `allOrNothing_iff` says for which sequences that holds: those in which no level with writes is
  rolled back inside an outermost level that is committed.
* `not_allOrNothing`: the eviction of pending comments rolls its level back and swallows the error;
  the level around it is committed, and half of the eviction stays.

Every statement takes effect here.  The last section runs the eviction with a statement that fails.
-/

set_option autoImplicit false

namespace Pkc
namespace Database

open Transactions

variable {W : Type}

/-! ## The calls -/

/-- A savepoint that is always rolled back.  Outside a transaction it is one of its own. -/
def readBackWithoutStoring {α : Type} (write : DbOp Unit) (read : DbOp α) : DbOp α :=
  (query .sqliteError fun _ => .ok ()).bind fun _ s =>
    let r := (write.bind fun _ => read) { s with snapshot := some (s.snapshot.getD s.tables) }
    if r.2.snapshot.isSome then (r.1, { r.2 with tables := s.tables, snapshot := s.snapshot })
    else (.error .sqliteError, r.2)

inductive Call (W : Type)
  | createTransaction
  | write (w : W)
  | commitTransaction
  | rollbackTransaction
  | readBackWithoutStoring (ws : List W)

def write (effect : W → DbTables → DbTables) (w : W) : DbOp Unit :=
  update .sqliteError fun t => .ok ((), effect w t)

/-- `effect` is what a write does to the tables. -/
def Call.op (effect : W → DbTables → DbTables) : Call W → DbOp Unit
  | .createTransaction => Database.createTransaction
  | .write w => Database.write effect w
  | .commitTransaction => Database.commitTransaction
  | .rollbackTransaction => Database.rollbackTransaction
  | .readBackWithoutStoring ws =>
    Database.readBackWithoutStoring
      ((forEach (Database.write effect) ws).bind fun _ => Op.pure ()) (Op.pure ())

def runCalls (effect : W → DbTables → DbTables) : List (Call W) → DbOp Unit
  | [] => Op.pure ()
  | call :: calls => (call.op effect).bind fun _ => runCalls effect calls

/-- Calls in which the levels are well-bracketed. -/
inductive Calls (W : Type)
  | done
  | write (w : W) (rest : Calls W)
  | readBackWithoutStoring (ws : List W) (rest : Calls W)
  /-- A level, which is committed or rolled back. -/
  | level (body : Calls W) (commits : Bool) (rest : Calls W)

def Calls.calls : Calls W → List (Call W)
  | .done => []
  | .write w rest => .write w :: rest.calls
  | .readBackWithoutStoring ws rest => .readBackWithoutStoring ws :: rest.calls
  | .level body commits rest => .createTransaction :: (body.calls ++
      (if commits then .commitTransaction else .rollbackTransaction) :: rest.calls)

/-! ## What they are for -/

/-- The writes, whatever becomes of the levels. -/
def Calls.writes : Calls W → List W
  | .done => []
  | .write w rest => w :: rest.writes
  | .readBackWithoutStoring _ rest => rest.writes
  | .level body _ rest => body.writes ++ rest.writes

/-- The writes that are in no level that is rolled back. -/
def Calls.persisted : Calls W → List W
  | .done => []
  | .write w rest => w :: rest.persisted
  | .readBackWithoutStoring _ rest => rest.persisted
  | .level body commits rest => (if commits then body.persisted else []) ++ rest.persisted

/-- The depth is zero outside a transaction of SQLite, and only there. -/
def CountsDepth (effect : W → DbTables → DbTables) (calls : List (Call W)) (t : DbTables) : Prop :=
  ∃ s', runCalls effect calls { tables := t } = (.ok (), s') ∧ (s'.depth = 0 ↔ s'.snapshot = none)

/-- After the calls no transaction is open, and what they should write is in the database; and the
depth is right all the time. -/
def AllOrNothing (calls : Calls W) : Prop :=
  ∀ (effect : W → DbTables → DbTables) (t : DbTables),
    runCalls effect calls.calls { tables := t } =
        (.ok (), { tables := calls.persisted.foldl (fun t w => effect w t) t }) ∧
      ∀ before, before <+: calls.calls → CountsDepth effect before t

/-- No level with writes is rolled back. -/
def Calls.Undivided : Calls W → Prop
  | .done => True
  | .write _ rest => rest.Undivided
  | .readBackWithoutStoring _ rest => rest.Undivided
  | .level body commits rest =>
    ((commits = true ∧ body.Undivided) ∨ body.writes = []) ∧ rest.Undivided

/-- None is rolled back in an outermost level that is committed. -/
def Calls.Propagates : Calls W → Prop
  | .done => True
  | .write _ rest => rest.Propagates
  | .readBackWithoutStoring _ rest => rest.Propagates
  | .level body commits rest => (commits = true → body.Undivided) ∧ rest.Propagates

/-! ## What they do -/

/-- The writes that are in no outermost level that is rolled back. -/
def Calls.kept : Calls W → List W
  | .done => []
  | .write w rest => w :: rest.kept
  | .readBackWithoutStoring _ rest => rest.kept
  | .level body commits rest => (if commits then body.writes else []) ++ rest.kept

section Run

variable {effect : W → DbTables → DbTables} {s : Session DbTables}

theorem runCalls_append (calls calls' : List (Call W)) :
    runCalls effect (calls ++ calls') s =
      ((runCalls effect calls).bind fun _ => runCalls effect calls') s := by
  induction calls generalizing s with
  | nil => rfl
  | cons call calls ih =>
    simp only [List.cons_append, runCalls, Op.bind]
    cases (call.op effect) s with
    | mk r s₁ =>
      cases r with
      | error e => rfl
      | ok u => exact ih

theorem write_of_undisturbed (hs : s.Undisturbed) (w : W) :
    write effect w s = (.ok (), { s with tables := effect w s.tables }) :=
  update_of_undisturbed hs rfl

theorem forEach_write (hs : s.Undisturbed) (ws : List W) : ∃ us,
    forEach (write effect) ws s =
      (.ok us, { s with tables := ws.foldl (fun t w => effect w t) s.tables }) := by
  induction ws generalizing s with
  | nil => exact ⟨[], rfl⟩
  | cons w ws ih =>
    obtain ⟨us, hus⟩ := ih (s := { s with tables := effect w s.tables }) hs
    refine ⟨() :: us, ?_⟩
    rw [forEach, bind_of_ok (write_of_undisturbed hs w), bind_of_ok hus]
    rfl

/-- A write that is read back is not stored. -/
theorem readBack_of_undisturbed (hs : s.Undisturbed) (ws : List W) :
    (Call.readBackWithoutStoring ws).op effect s = (.ok (), s) := by
  let opened := { s with snapshot := some (s.snapshot.getD s.tables) }
  have hopened : opened.Undisturbed := hs
  obtain ⟨us, hus⟩ : ∃ us, forEach (write effect) ws opened =
      (.ok us, { opened with tables := ws.foldl (fun t w => effect w t) opened.tables }) :=
    forEach_write hopened ws
  have hmark : (query .sqliteError fun _ => .ok () : DbOp Unit) s = (.ok (), s) :=
    query_of_undisturbed hs rfl
  rw [Call.op, readBackWithoutStoring, bind_of_ok hmark]
  have hwrites : ((forEach (write effect) ws).bind fun _ => (Op.pure () : DbOp Unit)) opened =
      (.ok (), { opened with tables := ws.foldl (fun t w => effect w t) opened.tables }) := by
    rw [bind_of_ok hus]
    rfl
  have hrun := bind_of_ok (f := fun _ => (Op.pure () : DbOp Unit)) hwrites
  simp only [opened] at hrun
  simp only [hrun]
  rfl

theorem createTransaction_of_nested (hdepth : 0 < s.depth) :
    createTransaction s = (.ok (), { s with depth := s.depth + 1 }) := by
  rw [createTransaction, if_neg (by omega)]

theorem createTransaction_of_closed (hs : s.Undisturbed) (hclosed : Closed s) :
    createTransaction s = (.ok (), { s with snapshot := some s.tables, depth := 1 }) := by
  have hbegin : (execBegin .sqliteError : DbOp Unit) s =
      (.ok (), { s with snapshot := some s.tables }) :=
    statement_of_undisturbed hs (by simp [hclosed.2])
  rw [createTransaction, if_pos hclosed.1, bind_of_ok hbegin]
  simp [hclosed.1]

/-- How a level ends. -/
def endLevel (commits : Bool) : DbOp Unit :=
  if commits then commitTransaction else rollbackTransaction

theorem endLevel_of_nested (commits : Bool) (hdepth : 1 < s.depth) :
    endLevel commits s = (.ok (), { s with depth := s.depth - 1 }) := by
  cases commits with
  | true =>
    rw [endLevel, if_pos rfl, commitTransaction, if_pos (by omega)]
    simp only [if_neg (show ¬ s.depth - 1 = 0 by omega)]
  | false =>
    rw [endLevel, if_neg (by decide), rollbackTransaction, if_pos (by omega)]
    simp only [if_neg (show ¬ s.depth = 1 by omega)]

/-- The outermost level has the last word. -/
theorem endLevel_of_outermost (hs : s.Undisturbed) (commits : Bool) {t : DbTables}
    (hdepth : s.depth = 1) (hsnapshot : s.snapshot = some t) :
    endLevel commits s = (.ok (), { s with
      tables := if commits then s.tables else t, snapshot := none, depth := 0 }) := by
  cases commits with
  | true =>
    have hcommit : (execCommit .sqliteError : DbOp Unit) { s with depth := 0 } =
        (.ok (), { s with depth := 0, snapshot := none }) :=
      statement_of_undisturbed hs (by simp [hsnapshot])
    rw [endLevel, if_pos rfl, commitTransaction, if_pos (by omega)]
    simp [hdepth, hcommit]
  | false =>
    rw [endLevel, if_neg (by decide), rollbackTransaction, if_pos (by omega)]
    simp [hdepth, execRollback, hsnapshot, Session.undone]

theorem runCalls_level (body : Calls W) (commits : Bool) (rest : Calls W) :
    runCalls effect (Calls.level body commits rest).calls =
      createTransaction.bind fun _ => (runCalls effect body.calls).bind fun _ =>
        (endLevel commits).bind fun _ => runCalls effect rest.calls := by
  have hend :
      (if commits then Call.commitTransaction else Call.rollbackTransaction : Call W).op effect =
      endLevel commits := by
    cases commits <;> rfl
  funext s
  rw [Calls.calls, runCalls, Call.op]
  congr 1
  funext u s
  rw [runCalls_append, runCalls, hend]

/-- In a transaction everything is written. -/
theorem runCalls_inside (hs : s.Undisturbed) (hdepth : 0 < s.depth) (calls : Calls W) :
    runCalls effect calls.calls s =
      (.ok (), { s with tables := calls.writes.foldl (fun t w => effect w t) s.tables }) := by
  induction calls generalizing s with
  | done => rfl
  | write w rest ih =>
    rw [Calls.calls, runCalls, Call.op, bind_of_ok (write_of_undisturbed hs w)]
    exact ih (s := { s with tables := effect w s.tables }) hs hdepth
  | readBackWithoutStoring ws rest ih =>
    rw [Calls.calls, runCalls, bind_of_ok (readBack_of_undisturbed hs ws)]
    exact ih hs hdepth
  | level body commits rest ihbody ihrest =>
    let written := { s with
      tables := body.writes.foldl (fun t w => effect w t) s.tables, depth := s.depth + 1 }
    rw [runCalls_level, bind_of_ok (createTransaction_of_nested hdepth),
      bind_of_ok (ihbody (s := { s with depth := s.depth + 1 }) hs (by simp)),
      bind_of_ok (endLevel_of_nested (s := written) commits (by simp [written, hdepth]))]
    simp only [written, Nat.add_sub_cancel, Calls.writes, List.foldl_append]
    exact ihrest (s := { s with tables := body.writes.foldl (fun t w => effect w t) s.tables })
      hs hdepth

/-- Outside a transaction, what is in no outermost level that is rolled back. -/
theorem runCalls_outside (hs : s.Undisturbed) (hclosed : Closed s) (calls : Calls W) :
    runCalls effect calls.calls s =
      (.ok (), { s with tables := calls.kept.foldl (fun t w => effect w t) s.tables }) := by
  induction calls generalizing s with
  | done => rfl
  | write w rest ih =>
    rw [Calls.calls, runCalls, Call.op, bind_of_ok (write_of_undisturbed hs w)]
    exact ih (s := { s with tables := effect w s.tables }) hs hclosed
  | readBackWithoutStoring ws rest ih =>
    rw [Calls.calls, runCalls, bind_of_ok (readBack_of_undisturbed hs ws)]
    exact ih hs hclosed
  | level body commits rest _ ihrest =>
    let opened := { s with snapshot := some s.tables, depth := 1 }
    let written := { opened with tables := body.writes.foldl (fun t w => effect w t) s.tables }
    rw [runCalls_level, bind_of_ok (createTransaction_of_closed hs hclosed),
      bind_of_ok (runCalls_inside (s := opened) hs (by simp [opened]) body),
      bind_of_ok (endLevel_of_outermost (s := written) hs commits rfl rfl)]
    have hend : ∀ t, ({ s with tables := t, snapshot := none, depth := 0 } : Session DbTables) =
        { s with tables := t } := fun t => by
      rw [← hclosed.1, ← hclosed.2]
    cases commits with
    | true =>
      simp only [written, opened, if_true, hend, Calls.kept, List.foldl_append]
      exact ihrest (s := { s with tables := body.writes.foldl (fun t w => effect w t) s.tables })
        hs hclosed
    | false =>
      simp only [written, opened, Bool.false_eq_true, if_false, hend, Calls.kept, List.nil_append]
      exact ihrest hs hclosed

/-- The depth is right after every call. -/
theorem Call.op_countsDepth (hs : s.Undisturbed) (hcounts : s.depth = 0 ↔ s.snapshot = none)
    (call : Call W) : ∃ s', call.op effect s = (.ok (), s') ∧ s'.Undisturbed ∧
      (s'.depth = 0 ↔ s'.snapshot = none) := by
  have hend : ∀ commits, ∃ s', endLevel commits s = (.ok (), s') ∧ s'.Undisturbed ∧
      (s'.depth = 0 ↔ s'.snapshot = none) := by
    intro commits
    rcases Nat.lt_trichotomy s.depth 1 with hzero | hone | hmore
    · have hnone := hcounts.1 (by omega)
      refine ⟨s, ?_, hs, hcounts⟩
      have hdepth : s.depth = 0 := by omega
      cases commits with
      | true => simp [endLevel, Database.commitTransaction, hdepth]
      | false => simp [endLevel, Database.rollbackTransaction, hnone, hdepth]
    · obtain ⟨t, ht⟩ := Option.ne_none_iff_exists'.1 (mt hcounts.2 (by omega))
      exact ⟨_, endLevel_of_outermost hs commits hone ht, hs, by simp⟩
    · have hopen := mt hcounts.2 (by omega)
      exact ⟨_, endLevel_of_nested commits hmore, hs,
        iff_of_false (by simp only; omega) hopen⟩
  cases call with
  | createTransaction =>
    by_cases hdepth : s.depth = 0
    · exact ⟨_, createTransaction_of_closed hs ⟨hdepth, hcounts.1 hdepth⟩, hs, by simp⟩
    · exact ⟨_, createTransaction_of_nested (by omega), hs,
        iff_of_false (by simp) (mt hcounts.2 hdepth)⟩
  | write w => exact ⟨_, write_of_undisturbed hs w, hs, hcounts⟩
  | commitTransaction => exact hend true
  | rollbackTransaction => exact hend false
  | readBackWithoutStoring ws => exact ⟨s, readBack_of_undisturbed hs ws, hs, hcounts⟩

theorem countsDepth (effect : W → DbTables → DbTables) (calls : List (Call W)) (t : DbTables) :
    CountsDepth effect calls t := by
  suffices hgen : ∀ s : Session DbTables, s.Undisturbed → (s.depth = 0 ↔ s.snapshot = none) →
      ∃ s', runCalls effect calls s = (.ok (), s') ∧ (s'.depth = 0 ↔ s'.snapshot = none) from
    hgen { tables := t } rfl (iff_of_true rfl rfl)
  induction calls with
  | nil => exact fun s _ hcounts => ⟨s, rfl, hcounts⟩
  | cons call calls ih =>
    intro s hs hcounts
    obtain ⟨s₁, hcall, hs₁, hcounts₁⟩ : ∃ s', call.op effect s = (.ok (), s') ∧ s'.Undisturbed ∧
        (s'.depth = 0 ↔ s'.snapshot = none) := call.op_countsDepth hs hcounts
    rw [runCalls, bind_of_ok hcall]
    exact ih s₁ hs₁ hcounts₁

end Run

/-! ## Levels that are rolled back -/

section Levels

theorem Calls.length_persisted_le (calls : Calls W) :
    calls.persisted.length ≤ calls.writes.length := by
  induction calls with
  | done => exact Nat.le_refl _
  | write w rest ih => simpa [persisted, writes] using ih
  | readBackWithoutStoring ws rest ih => exact ih
  | level body commits rest ihbody ihrest =>
    simp only [persisted, writes, List.length_append]
    split
    · omega
    · simp only [List.length_nil]
      omega

theorem Calls.undivided_iff (calls : Calls W) :
    calls.Undivided ↔ calls.persisted.length = calls.writes.length := by
  induction calls with
  | done => simp [Undivided, persisted, writes]
  | write w rest ih => simpa [Undivided, persisted, writes] using ih
  | readBackWithoutStoring ws rest ih => exact ih
  | level body commits rest ihbody ihrest =>
    have hbody := body.length_persisted_le
    have hrest := rest.length_persisted_le
    simp only [Undivided, persisted, writes, List.length_append, ihbody, ihrest,
      ← List.length_eq_zero_iff]
    cases commits with
    | true =>
      simp only [if_true, true_and]
      omega
    | false =>
      simp only [Bool.false_eq_true, if_false, false_and, false_or, List.length_nil]
      omega

theorem Calls.Undivided.persisted_eq {calls : Calls W} (h : calls.Undivided) :
    calls.persisted = calls.writes := by
  induction calls with
  | done => rfl
  | write w rest ih => rw [persisted, writes, ih h]
  | readBackWithoutStoring ws rest ih => exact ih h
  | level body commits rest ihbody ihrest =>
    obtain ⟨hbody, hrest⟩ := h
    rw [persisted, writes, ihrest hrest]
    rcases hbody with ⟨rfl, hbody⟩ | hnone
    · rw [if_pos rfl, ihbody hbody]
    · have hle := body.length_persisted_le
      rw [hnone, List.length_nil, Nat.le_zero, List.length_eq_zero_iff] at hle
      rw [hle, hnone, ite_self]

theorem Calls.length_persisted_le_kept (calls : Calls W) :
    calls.persisted.length ≤ calls.kept.length := by
  induction calls with
  | done => exact Nat.le_refl _
  | write w rest ih => simpa [persisted, kept] using ih
  | readBackWithoutStoring ws rest ih => exact ih
  | level body commits rest _ ihrest =>
    have hbody := body.length_persisted_le
    simp only [persisted, kept, List.length_append]
    split <;> omega

theorem Calls.propagates_iff (calls : Calls W) :
    calls.Propagates ↔ calls.persisted.length = calls.kept.length := by
  induction calls with
  | done => simp [Propagates, persisted, kept]
  | write w rest ih => simpa [Propagates, persisted, kept] using ih
  | readBackWithoutStoring ws rest ih => exact ih
  | level body commits rest _ ihrest =>
    have hbody := body.length_persisted_le
    have hrest := rest.length_persisted_le_kept
    simp only [Propagates, persisted, kept, List.length_append, ihrest, body.undivided_iff]
    cases commits
    · simp
    · simp
      omega

theorem Calls.Propagates.persisted_eq {calls : Calls W} (h : calls.Propagates) :
    calls.persisted = calls.kept := by
  induction calls with
  | done => rfl
  | write w rest ih => rw [persisted, kept, ih h]
  | readBackWithoutStoring ws rest ih => exact ih h
  | level body commits rest _ ihrest =>
    obtain ⟨hbody, hrest⟩ := h
    rw [persisted, kept, ihrest hrest]
    cases commits with
    | true => rw [if_pos rfl, if_pos rfl, (hbody rfl).persisted_eq]
    | false => rfl

/-- A write that leaves a trace. -/
def leaveTrace (_ : W) (t : DbTables) : DbTables :=
  { t with pseudonymityAliases := ⟨""⟩ :: t.pseudonymityAliases }

theorem length_leaveTrace (ws : List W) (t : DbTables) :
    (ws.foldl (fun t w => leaveTrace w t) t).pseudonymityAliases.length =
      t.pseudonymityAliases.length + ws.length := by
  induction ws generalizing t with
  | nil => rfl
  | cons w ws ih =>
    rw [List.foldl_cons, ih]
    simp only [leaveTrace, List.length_cons]
    omega

theorem runCalls_eq (effect : W → DbTables → DbTables) (calls : Calls W) (t : DbTables) :
    runCalls effect calls.calls { tables := t } =
      (.ok (), { tables := calls.kept.foldl (fun t w => effect w t) t }) :=
  runCalls_outside (s := { tables := t }) rfl ⟨rfl, rfl⟩ calls

theorem AllOrNothing.propagates {calls : Calls W} (h : AllOrNothing calls) : calls.Propagates := by
  have hsame := (h leaveTrace (commentsOnly [] .nil .nil)).1
  rw [runCalls_eq] at hsame
  have htables := congrArg (fun r => (Prod.snd r).tables.pseudonymityAliases.length) hsame
  simp only [length_leaveTrace] at htables
  exact calls.propagates_iff.2 (by omega)

/-- **Transactions in transactions.**  They are all or nothing for exactly the sequences in which no
level with writes is rolled back inside an outermost level that is committed. -/
theorem allOrNothing_iff (calls : Calls W) : AllOrNothing calls ↔ calls.Propagates := by
  refine ⟨AllOrNothing.propagates, fun hpropagates effect t => ⟨?_, fun before _ => ?_⟩⟩
  · rw [runCalls_eq, hpropagates.persisted_eq]
  · exact countsDepth effect before t

end Levels

/-! ## The eviction of pending comments -/

/-- An error is logged. -/
def logged (op : DbOp Unit) : DbOp Unit := fun s => (.ok (), (op s).2)

def DbTables.oldestPending (t : DbTables) (pendingApproval : CommentsTableRow → Bool)
    (toRemove : Nat) : List Cid :=
  (((t.comments.filter pendingApproval).insertionSort fun a b => a.rowid ≤ b.rowid).take
    toRemove).map CommentsTableRow.cid

def removeOldestPendingCommentIfWeHitMaxPendingCount (pendingApproval : CommentsTableRow → Bool)
    (random : Cid → Nat) (stack maxPendingApprovalCount : Nat) : DbOp Unit :=
  logged <|
    (query .sqliteError fun t => .ok (t.comments.countP pendingApproval)).bind fun cnt =>
    if cnt ≤ maxPendingApprovalCount then Op.pure ()
    else (query .sqliteError fun t =>
      .ok (t.oldestPending pendingApproval (cnt - maxPendingApprovalCount))).bind fun oldest =>
    if oldest.isEmpty then Op.pure ()
    else transaction <|
      (forEach (fun cid => purgeComment true (random cid) stack cid false) oldest).bind fun _ =>
        Op.pure ()

def insertComments (row : CommentsTableRow) : DbOp Unit :=
  update .sqliteError fun t =>
    if h : row.cid ∉ t.comments.map CommentsTableRow.cid ∧
        row.rowid ∉ t.comments.map CommentsTableRow.rowid then
      .ok ((), { t with
        comments := t.comments ++ [row]
        nodup_comments := by simpa [List.nodup_append, t.nodup_comments] using h.1
        nodup_rowids := by simpa [List.nodup_append, t.nodup_rowids] using h.2 })
    else .error .sqliteError

/-- How a comment that is pending is stored. -/
def storeComment (pendingApproval : CommentsTableRow → Bool) (random : Cid → Nat)
    (stack maxPendingApprovalCount : Nat) (commentRow : CommentsTableRow) : DbOp Unit :=
  transaction <| (insertComments commentRow).bind fun _ =>
    removeOldestPendingCommentIfWeHitMaxPendingCount pendingApproval random stack
      maxPendingApprovalCount

def pendingPost (rowid : Nat) (cid : Cid) : CommentsTableRow :=
  ⟨rowid, cid, none, cid, "alice", none⟩

def twoPending : DbTables :=
  commentsOnly [pendingPost 1 "first", pendingPost 2 "second"] (by decide) (by decide)

/-- A third pending comment is stored, and the first one is purged; then the purge of the second one
fails. -/
def failedEviction : Calls Cid :=
  .level (.write "third"
    (.level (.level (.write "first" .done) true (.level .done false .done)) false .done)) true .done

/-- **Half of an eviction.**  The level of the eviction is rolled back, but the first comment is
gone, and storing the third one reports no error. -/
theorem not_allOrNothing : ¬ AllOrNothing failedEviction ∧
    (storeComment (fun _ => true) (fun _ => 0) 100 1 (pendingPost 3 "third")
      { tables := twoPending, outcomes := List.replicate 20 .done ++ [.error] }).1.toOption.isSome ∧
    (storeComment (fun _ => true) (fun _ => 0) 100 1 (pendingPost 3 "third")
      { tables := twoPending, outcomes := List.replicate 20 .done ++ [.error] }).2.tables.comments =
        [pendingPost 2 "second", pendingPost 3 "third"] := by
  refine ⟨fun h => ?_, by decide +kernel, by decide +kernel⟩
  have hpropagates := h.propagates
  simp [failedEviction, Calls.Propagates, Calls.Undivided, Calls.writes] at hpropagates

end Database
end Pkc

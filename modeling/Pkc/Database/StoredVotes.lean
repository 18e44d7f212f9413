import Pkc.Library.Json
import Pkc.Library.Runs
import Pkc.Library.Transactions

/-!
# Storing votes

A vote replaces the earlier vote of its author on the same comment.  The address of the author is
awaited, so the votes that are stored at the same time may take turns in any order; what follows is
one piece of code, that deletes the earlier vote and then inserts the new one in a transaction of
its own.

* `storeVote` is the function, and `State.step` runs any number of its calls.
* `OneVoteEach` says what the table is for: it has the last vote that was stored of every author on
  every comment, so a vote that could not be stored has left the earlier one there.
* `votes_replaced` says that every vote in the table is the last one in every run, and that none is
  lost in the runs in which no insertion fails when an earlier vote has been deleted.
* `not_oneVoteEach`: an insertion that fails loses the earlier vote.
-/

set_option autoImplicit false

namespace Pkc
namespace StoredVotes

open Runs Transactions

abbrev Cid := String

abbrev Address := String

/-! ## The table -/

structure VotesTableRow where
  commentCid : Cid
  authorSignerAddress : Address
  timestamp : Int
  vote : Int
  protocolVersion : String
  insertedAt : Nat
  extraProps : Option Json

/-- The primary key. -/
def VotesTableRow.key (row : VotesTableRow) : Cid × Address :=
  (row.commentCid, row.authorSignerAddress)

structure VoteTables where
  /-- The CIDs of the comments that are stored. -/
  comments : List Cid
  votes : List VotesTableRow
  nodup_keys : (votes.map VotesTableRow.key).Nodup

inductive StoreError
  /-- SQLite does not carry a statement out. -/
  | sqliteError
  | constraintFailed
  | badPublicKey
deriving DecidableEq

abbrev VoteOp (α : Type) := Op VoteTables StoreError α

/-- `REFERENCES comments(cid)`, the two checks and the primary key. -/
def VoteTables.Accepts (t : VoteTables) (row : VotesTableRow) : Prop :=
  row.commentCid ∈ t.comments ∧ 0 < row.timestamp ∧ (-1 ≤ row.vote ∧ row.vote ≤ 1) ∧
    row.key ∉ t.votes.map VotesTableRow.key

instance (t : VoteTables) (row : VotesTableRow) : Decidable (t.Accepts row) :=
  inferInstanceAs (Decidable (_ ∧ _))

def VoteTables.insert (t : VoteTables) (row : VotesTableRow) (h : t.Accepts row) : VoteTables where
  comments := t.comments
  votes := t.votes ++ [row]
  nodup_keys := by
    rw [List.map_append, List.nodup_append]
    exact ⟨t.nodup_keys, List.nodup_singleton _, fun key hkey _ hother => by
      rintro rfl
      exact h.2.2.2 (List.mem_singleton.1 hother ▸ hkey)⟩

def VoteTables.delete (t : VoteTables) (key : Cid × Address) : VoteTables where
  comments := t.comments
  votes := t.votes.filter fun row => row.key ≠ key
  nodup_keys := t.nodup_keys.sublist (List.filter_sublist.map _)

def VoteTables.votesOf (t : VoteTables) (key : Cid × Address) : List VotesTableRow :=
  t.votes.filter fun row => row.key = key

/-! ## Storing a vote -/

structure VotePubsubMessagePublication where
  vote : Int
  commentCid : Cid
  protocolVersion : String
  timestamp : Int
  /-- `signature.publicKey`. -/
  publicKey : String
  /-- The members that the schema does not name. -/
  extra : Json.Fields

def deleteVote (authorSignerAddress : Address) (commentCid : Cid) : VoteOp Unit :=
  update .sqliteError fun t => .ok ((), t.delete (commentCid, authorSignerAddress))

def insertVote (row : VotesTableRow) : VoteOp Unit :=
  update .sqliteError fun t =>
    if h : t.Accepts row then .ok ((), t.insert row h) else .error .constraintFailed

/-- The names of the columns are read first. -/
def insertVotes (votes : List VotesTableRow) : VoteOp Unit :=
  if votes.isEmpty then Op.pure ()
  else (query .sqliteError fun _ => .ok ()).bind fun _ =>
    (atomically .sqliteError (forEach insertVote votes)).bind fun _ => Op.pure ()

def voteTableRow (props : VotePubsubMessagePublication) (authorSignerAddress : Address)
    (timestamp : Nat) : VotesTableRow where
  commentCid := props.commentCid
  authorSignerAddress := authorSignerAddress
  timestamp := props.timestamp
  vote := props.vote
  protocolVersion := props.protocolVersion
  insertedAt := timestamp
  extraProps := if 0 < props.extra.length then some (.obj props.extra) else none

/-- What is done when the address of the author is there. -/
def storeVote (props : VotePubsubMessagePublication) (authorSignerAddress : Address)
    (timestamp : Nat) : VoteOp Unit :=
  (deleteVote authorSignerAddress props.commentCid).bind fun _ =>
    insertVotes [voteTableRow props authorSignerAddress timestamp]

/-! ## The calls -/

structure State where
  session : Session VoteTables
  /-- The calls that wait for the address of the author. -/
  calls : List (VotePubsubMessagePublication × Address)
  /-- The votes of the calls that have returned, the last one last. -/
  stored : List VotesTableRow

inductive Event
  | call (props : VotePubsubMessagePublication)
  /-- A call goes on, and its statements have these outcomes. -/
  | resume (index timestamp : Nat) (outcomes : List Outcome)

/-- The vote that was stored last. -/
def State.lastStored (s : State) (key : Cid × Address) : Option VotesTableRow :=
  (s.stored.filter fun row => row.key = key).getLast?

def State.settle (s : State) (row : VotesTableRow) :
    Except StoreError Unit × Session VoteTables → State
  | (.ok _, session) => { s with session := session, stored := s.stored ++ [row] }
  | (.error _, session) => { s with session := session }

/-- The address is there, and the statements have these outcomes. -/
def State.resumed (s : State) (index timestamp : Nat) (outcomes : List Outcome)
    (props : VotePubsubMessagePublication) (address : Address) : State :=
  ({ s with calls := s.calls.eraseIdx index }).settle (voteTableRow props address timestamp)
    (storeVote props address timestamp { s.session with outcomes := outcomes })

/-- `getPKCAddressFromPublicKey` is the address of a public key, if it is one. -/
def State.step (getPKCAddressFromPublicKey : String → Option Address) (s : State) :
    Event → Option State
  | .call props =>
    match getPKCAddressFromPublicKey props.publicKey with
    | some address => some { s with calls := s.calls ++ [(props, address)] }
    | none => some s
  | .resume index timestamp outcomes =>
    (s.calls[index]?).map fun (props, address) =>
      s.resumed index timestamp outcomes props address

/-- The votes that are there at first are the last ones. -/
def start (t : VoteTables) : State := ⟨{ tables := t }, [], t.votes⟩

/-! ## What the table is for -/

/-- The table has the last vote of every author on every comment. -/
def OneVoteEach (s : State) : Prop :=
  ∀ key, s.session.tables.votesOf key = (s.lastStored key).toList

/-- No more than that. -/
def AtMostTheLast (s : State) : Prop :=
  ∀ key, s.session.tables.votesOf key = [] ∨
    s.session.tables.votesOf key = (s.lastStored key).toList

/-- The earlier vote is deleted. -/
def Deletes (t : VoteTables) (key : Cid × Address) (outcomes : List Outcome) : Prop :=
  outcomes.head?.getD .done = .done ∧ t.votesOf key ≠ []

/-- The four statements of the insertion take effect, and the table accepts the vote. -/
def Inserts (t : VoteTables) (row : VotesTableRow) (outcomes : List Outcome) : Prop :=
  (∀ outcome ∈ outcomes.take 4, outcome = .done) ∧ (t.delete row.key).Accepts row

/-- An earlier vote that is deleted is replaced. -/
def Replaces (s : State) : Event → Prop
  | .call _ => True
  | .resume index timestamp outcomes => ∀ props address, s.calls[index]? = some (props, address) →
      Deletes s.session.tables (voteTableRow props address timestamp).key outcomes →
        Inserts s.session.tables (voteTableRow props address timestamp) outcomes.tail

/-! ## One call -/

section Call

variable {t : VoteTables} {s s' : Session VoteTables} {row : VotesTableRow}

theorem inside_insertVote (row : VotesTableRow) : Inside (insertVote row) := inside_update _ _

theorem insertVote_eq_ok {u : Unit} : insertVote row s = (.ok u, s') ↔
    s.outcomes.head?.getD .done = .done ∧ ∃ h : s.tables.Accepts row,
      s' = { s with tables := s.tables.insert row h, outcomes := s.outcomes.tail } := by
  rw [insertVote, update_eq_ok_iff]
  split
  · simp_all
  · simp_all

theorem done_take_four (outcomes : List Outcome) :
    (∀ outcome ∈ outcomes.take 4, outcome = .done) ↔
      outcomes.head?.getD .done = .done ∧ outcomes.tail.head?.getD .done = .done ∧
        outcomes.tail.tail.head?.getD .done = .done ∧
          outcomes.tail.tail.tail.head?.getD .done = .done := by
  rcases outcomes with _ | ⟨a, _ | ⟨b, _ | ⟨c, _ | ⟨d, outcomes⟩⟩⟩⟩ <;> simp

theorem forEach_insertVote_eq_ok : (∃ us, forEach insertVote [row] s = (.ok us, s')) ↔
    s.outcomes.head?.getD .done = .done ∧ ∃ h : s.tables.Accepts row,
      s' = { s with tables := s.tables.insert row h, outcomes := s.outcomes.tail } := by
  simp only [forEach, bind_eq_ok, insertVote_eq_ok, pure_eq_ok]
  constructor
  · rintro ⟨-, -, -, ⟨hdone, h, rfl⟩, -, -, ⟨-, rfl⟩, -, rfl⟩
    exact ⟨hdone, h, rfl⟩
  · rintro ⟨hdone, h, rfl⟩
    exact ⟨_, (), _, ⟨hdone, h, rfl⟩, [], _, ⟨rfl, rfl⟩, rfl, rfl⟩

/-- When an insertion ends with a value, and that the vote is in the table then. -/
theorem insertVotes_eq_ok (hs : s.snapshot = none) {u : Unit} :
    insertVotes [row] s = (.ok u, s') ↔ (∀ outcome ∈ s.outcomes.take 4, outcome = .done) ∧
      ∃ h : s.tables.Accepts row,
        s' = { s with
          tables := s.tables.insert row h, outcomes := s.outcomes.tail.tail.tail.tail } := by
  have hs' : ({ s with outcomes := s.outcomes.tail } : Session VoteTables).snapshot = none := hs
  rw [done_take_four, insertVotes, if_neg (by simp)]
  constructor
  · intro h
    obtain ⟨_, t, hquery, h⟩ := bind_eq_ok.1 h
    obtain ⟨us, t', hinsert, h⟩ := bind_eq_ok.1 h
    obtain ⟨-, rfl⟩ := pure_eq_ok.1 h
    obtain ⟨hnames, -, rfl⟩ := query_eq_ok_iff.1 hquery
    obtain ⟨hbegin, t, hop, hcommit, -, rfl⟩ := (atomically_eq_ok hs').1 hinsert
    obtain ⟨hdone, haccepts, rfl⟩ := forEach_insertVote_eq_ok.1 ⟨us, hop⟩
    exact ⟨⟨hnames, hbegin, hdone, hcommit⟩, haccepts, by simp [hs]⟩
  · rintro ⟨⟨hnames, hbegin, hdone, hcommit⟩, h, rfl⟩
    let begun := { s with snapshot := some s.tables, outcomes := s.outcomes.tail.tail }
    obtain ⟨us, hop⟩ : ∃ us, forEach insertVote [row] begun = (.ok us, _) :=
      forEach_insertVote_eq_ok.2 ⟨hdone, h, rfl⟩
    refine bind_eq_ok.2 ⟨(), _, query_eq_ok_iff.2 ⟨hnames, rfl, rfl⟩, bind_eq_ok.2 ⟨us, _, ?_, rfl⟩⟩
    refine (atomically_eq_ok hs').2 ⟨hbegin, _, hop, hcommit, rfl, ?_⟩
    simp [hs, begun]

/-- An insertion that fails leaves the table as it was. -/
theorem insertVotes_closed (row : VotesTableRow) (hs : s.snapshot = none) :
    (insertVotes [row] s).2.snapshot = none ∧
      ∀ e, (insertVotes [row] s).1 = .error e → (insertVotes [row] s).2.tables = s.tables := by
  rw [insertVotes, if_neg (by simp), Op.bind]
  cases hquery : (query .sqliteError fun _ => .ok () : VoteOp Unit) s with
  | mk r s₁ =>
    cases r with
    | error e =>
      rcases statement_eq_error hquery with rfl | rfl
      · exact ⟨hs, fun _ _ => rfl⟩
      · exact ⟨rfl, fun _ _ => by simp [Session.undone, hs]⟩
    | ok u =>
      obtain ⟨-, rfl⟩ := query_eq_ok hquery
      obtain ⟨hclosed, -, hwhole⟩ := (inside_forEach inside_insertVote [row]).atomically
        StoreError.sqliteError (s := { s with outcomes := s.outcomes.tail }) hs
      simp only [Op.bind]
      cases hinsert : atomically .sqliteError (forEach insertVote [row])
        { s with outcomes := s.outcomes.tail } with
      | mk r₂ s₂ =>
        rw [hinsert] at hclosed hwhole
        cases r₂ with
        | error e => exact ⟨hclosed, fun _ _ => hwhole⟩
        | ok us => exact ⟨hclosed, (by rintro _ ⟨⟩)⟩

def withoutVote (s : Session VoteTables) (key : Cid × Address) : Session VoteTables :=
  { s with tables := s.tables.delete key, outcomes := s.outcomes.tail }

theorem deleteVote_eq_ok {address : Address} {cid : Cid} {u : Unit} :
    deleteVote address cid s = (.ok u, s') ↔ s.outcomes.head?.getD .done = .done ∧
      s' = withoutVote s (cid, address) := by
  rw [deleteVote, update_eq_ok_iff, withoutVote]
  simp

theorem deleteVote_eq_error {address : Address} {cid : Cid} {e : StoreError}
    (hs : s.snapshot = none) (h : deleteVote address cid s = (.error e, s')) :
    s.outcomes.head?.getD .done ≠ .done ∧ s'.snapshot = none ∧ s'.tables = s.tables := by
  refine ⟨fun hdone => ?_, ?_⟩
  · rw [(deleteVote_eq_ok (u := ())).2 ⟨hdone, rfl⟩] at h
    cases h
  · rw [deleteVote, update] at h
    rcases statement_eq_error h with rfl | rfl
    · exact ⟨hs, rfl⟩
    · exact ⟨rfl, by simp [Session.undone, hs]⟩

variable {props : VotePubsubMessagePublication} {address : Address} {timestamp : Nat} {u : Unit}

theorem withoutVote_closed (hs : s.snapshot = none) (key : Cid × Address) :
    (withoutVote s key).snapshot = none := hs

theorem storeVote_closed (hs : s.snapshot = none) :
    (storeVote props address timestamp s).2.snapshot = none := by
  rw [storeVote, Op.bind]
  cases hdelete : deleteVote address props.commentCid s with
  | mk r s₁ =>
    cases r with
    | error e => exact (deleteVote_eq_error hs hdelete).2.1
    | ok u =>
      obtain ⟨-, rfl⟩ := deleteVote_eq_ok.1 hdelete
      exact (insertVotes_closed _ (withoutVote_closed hs _)).1

/-- A call returns when the deletion and the insertion take effect. -/
theorem storeVote_eq_ok (hs : s.snapshot = none)
    (hrow : voteTableRow props address timestamp = row) :
    storeVote props address timestamp s = (.ok u, s') ↔ s.outcomes.head?.getD .done = .done ∧
      (∀ outcome ∈ s.outcomes.tail.take 4, outcome = .done) ∧
        ∃ h : (s.tables.delete row.key).Accepts row,
          s' = { s with
            tables := (s.tables.delete row.key).insert row h
            outcomes := s.outcomes.tail.tail.tail.tail.tail } := by
  subst hrow
  rw [storeVote, bind_eq_ok]
  constructor
  · rintro ⟨_, t, hdelete, hinsert⟩
    obtain ⟨hdone, rfl⟩ := deleteVote_eq_ok.1 hdelete
    obtain ⟨hrest, haccepts, rfl⟩ :=
      (insertVotes_eq_ok (withoutVote_closed hs _)).1 hinsert
    exact ⟨hdone, hrest, haccepts, rfl⟩
  · rintro ⟨hdone, hrest, haccepts, rfl⟩
    exact ⟨(), _, deleteVote_eq_ok.2 ⟨hdone, rfl⟩,
      (insertVotes_eq_ok (withoutVote_closed hs _)).2 ⟨hrest, haccepts, rfl⟩⟩

/-- A call that fails has deleted the earlier vote, or nothing. -/
theorem storeVote_eq_error (hs : s.snapshot = none) {e : StoreError}
    (hrow : voteTableRow props address timestamp = row)
    (h : storeVote props address timestamp s = (.error e, s')) :
    (s.outcomes.head?.getD .done ≠ .done ∧ s'.tables = s.tables) ∨
      s.outcomes.head?.getD .done = .done ∧ s'.tables = s.tables.delete row.key := by
  subst hrow
  rw [storeVote, Op.bind] at h
  cases hdelete : deleteVote address props.commentCid s with
  | mk r s₁ =>
    rw [hdelete] at h
    cases r with
    | error e' =>
      cases h
      obtain ⟨hfails, -, hkept⟩ := deleteVote_eq_error hs hdelete
      exact .inl ⟨hfails, hkept⟩
    | ok u =>
      obtain ⟨hdone, rfl⟩ := deleteVote_eq_ok.1 hdelete
      refine .inr ⟨hdone, ?_⟩
      have hkept := (insertVotes_closed (voteTableRow props address timestamp)
        (withoutVote_closed hs (props.commentCid, address))).2 e
      simp only at h
      rw [h] at hkept
      exact hkept rfl

end Call

/-! ## The votes of a key -/

section Key

variable {t : VoteTables} {row : VotesTableRow} {key key' : Cid × Address} {s : State}

theorem VoteTables.votesOf_delete :
    (t.delete key').votesOf key = if key = key' then [] else t.votesOf key := by
  rw [votesOf, delete, List.filter_filter]
  split
  · rename_i heq
    simp [heq]
  · rename_i hne
    refine List.filter_congr fun row _ => ?_
    by_cases hrow : row.key = key
    · simp [hrow, hne]
    · simp [hrow]

theorem VoteTables.votesOf_insert (h : t.Accepts row) :
    (t.insert row h).votesOf key = t.votesOf key ++ if key = row.key then [row] else [] := by
  rw [votesOf, insert, List.filter_append, votesOf, List.filter_singleton]
  simp [eq_comm]

theorem votesOf_replaced (h : (t.delete row.key).Accepts row) :
    ((t.delete row.key).insert row h).votesOf key =
      if key = row.key then [row] else t.votesOf key := by
  rw [VoteTables.votesOf_insert, VoteTables.votesOf_delete]
  split <;> simp

theorem State.lastStored_append {session : Session VoteTables} {calls stored} :
    (State.mk session calls (stored ++ [row])).lastStored key =
      if key = row.key then some row else (State.mk session calls stored).lastStored key := by
  simp only [lastStored, List.filter_append, List.filter_singleton]
  split
  · rename_i heq
    simp [heq]
  · rename_i hne
    simp [Ne.symm hne]

/-- No two rows have one key. -/
theorem VoteTables.votesOf_eq_last :
    t.votesOf key = ((t.votes.filter fun row => row.key = key).getLast?).toList := by
  have hnodup : ((t.votesOf key).map VotesTableRow.key).Nodup :=
    t.nodup_keys.sublist (List.filter_sublist.map _)
  have hkey : ∀ row ∈ t.votesOf key, row.key = key := fun row hrow => by
    simpa using (List.mem_filter.1 hrow).2
  rw [← votesOf]
  match hvotes : t.votesOf key with
  | [] => rfl
  | [row] => rfl
  | row :: other :: rest =>
    rw [hvotes] at hnodup hkey
    have hsame : row.key = other.key := (hkey row (by simp)).trans (hkey other (by simp)).symm
    simp [hsame] at hnodup

end Key

/-! ## Any number of calls -/

section Runs

variable {getPKCAddressFromPublicKey : String → Option Address} {s s' : State} {event : Event}
  {t : VoteTables}

/-- Between the calls no transaction is open. -/
structure State.Ok (s : State) : Prop where
  closed : s.session.snapshot = none
  last : AtMostTheLast s

theorem start_ok (t : VoteTables) : (start t).Ok :=
  ⟨rfl, fun _ => .inr VoteTables.votesOf_eq_last⟩

theorem start_oneVoteEach (t : VoteTables) : OneVoteEach (start t) := fun _ =>
  VoteTables.votesOf_eq_last

theorem State.lastStored_congr {key : Cid × Address} (h : s'.stored = s.stored) :
    s'.lastStored key = s.lastStored key := by
  rw [lastStored, lastStored, h]

/-- What a step does to the votes: nothing, or it stores one, or it deletes one. -/
theorem State.step_cases (hs : s.Ok)
    (hstep : s.step getPKCAddressFromPublicKey event = some s') :
    s'.session.snapshot = none ∧
      ((Replaces s event ∧ ∀ key,
          s'.session.tables.votesOf key = s.session.tables.votesOf key ∧
            s'.lastStored key = s.lastStored key) ∨
        (Replaces s event ∧ ∃ row, ∀ key,
          s'.session.tables.votesOf key =
              (if key = row.key then [row] else s.session.tables.votesOf key) ∧
            s'.lastStored key = if key = row.key then some row else s.lastStored key) ∨
        ∃ deleted, (Replaces s event ↔ s.session.tables.votesOf deleted = []) ∧ ∀ key,
          s'.session.tables.votesOf key =
              (if key = deleted then [] else s.session.tables.votesOf key) ∧
            s'.lastStored key = s.lastStored key) := by
  cases event with
  | call props =>
    obtain ⟨hsession, hstored⟩ : s'.session = s.session ∧ s'.stored = s.stored := by
      rw [step] at hstep
      split at hstep <;> cases hstep <;> exact ⟨rfl, rfl⟩
    rw [hsession]
    exact ⟨hs.closed, .inl ⟨trivial, fun key => ⟨rfl, lastStored_congr hstored⟩⟩⟩
  | resume index timestamp outcomes =>
    obtain ⟨⟨props, address⟩, hcall, rfl⟩ := Option.map_eq_some_iff.1 hstep
    have hreplaces : Replaces s (.resume index timestamp outcomes) ↔
        (Deletes s.session.tables (voteTableRow props address timestamp).key outcomes →
          Inserts s.session.tables (voteTableRow props address timestamp) outcomes.tail) := by
      simp [Replaces, hcall]
    simp only [resumed]
    generalize hrow : voteTableRow props address timestamp = row at hreplaces ⊢
    have hs' : ({ s.session with outcomes := outcomes } : Session VoteTables).snapshot = none :=
      hs.closed
    have hclosed : (storeVote props address timestamp
        { s.session with outcomes := outcomes }).2.snapshot = none := storeVote_closed hs'
    cases hstore : storeVote props address timestamp { s.session with outcomes := outcomes } with
    | mk r session =>
      rw [hstore] at hclosed
      simp only [settle]
      cases r with
      | ok u =>
        obtain ⟨-, hdone, haccepts, rfl⟩ := (storeVote_eq_ok hs' hrow).1 hstore
        refine ⟨hclosed, .inr (.inl ⟨hreplaces.2 fun _ => ⟨hdone, haccepts⟩, row, fun key =>
          ⟨votesOf_replaced haccepts, lastStored_append⟩⟩)⟩
      | error e =>
        refine ⟨hclosed, ?_⟩
        rcases storeVote_eq_error hs' hrow hstore with ⟨hfails, hkept⟩ | ⟨hdone, hdeleted⟩
        · refine .inl ⟨hreplaces.2 fun hdeletes => absurd hdeletes.1 hfails, fun key => ?_⟩
          exact ⟨congrArg (VoteTables.votesOf · key) hkept, rfl⟩
        · refine .inr (.inr ⟨row.key, hreplaces.trans ⟨fun hrep => ?_, fun hnone hdeletes => ?_⟩,
            fun key => ⟨?_, rfl⟩⟩)
          · by_contra hsome
            obtain ⟨hrest, haccepts⟩ := hrep ⟨hdone, hsome⟩
            rw [(storeVote_eq_ok (u := ()) hs' hrow).2 ⟨hdone, hrest, haccepts, rfl⟩] at hstore
            cases hstore
          · exact absurd hnone hdeletes.2
          · rw [← VoteTables.votesOf_delete]
            exact congrArg (VoteTables.votesOf · key) hdeleted

theorem State.Ok.step (hs : s.Ok) (hstep : s.step getPKCAddressFromPublicKey event = some s') :
    s'.Ok := by
  obtain ⟨hclosed, hcases⟩ := State.step_cases hs hstep
  refine ⟨hclosed, fun key => ?_⟩
  have hlast := hs.last key
  rcases hcases with ⟨-, hsame⟩ | ⟨-, row, hstored⟩ | ⟨deleted, -, hgone⟩
  · rwa [(hsame key).1, (hsame key).2]
  · rw [(hstored key).1, (hstored key).2]
    split
    · exact .inr rfl
    · exact hlast
  · rw [(hgone key).1, (hgone key).2]
    split
    · exact .inl rfl
    · exact hlast

/-- A step keeps the last votes if and only if it replaces what it deletes. -/
theorem oneVoteEach_step_iff (hs : s.Ok) (hone : OneVoteEach s)
    (hstep : s.step getPKCAddressFromPublicKey event = some s') :
    OneVoteEach s' ↔ Replaces s event := by
  obtain ⟨-, ⟨hrep, hsame⟩ | ⟨hrep, row, hstored⟩ | ⟨deleted, hrep, hgone⟩⟩ :=
    State.step_cases hs hstep
  · refine iff_of_true (fun key => ?_) hrep
    rw [(hsame key).1, (hsame key).2, hone key]
  · refine iff_of_true (fun key => ?_) hrep
    rw [(hstored key).1, (hstored key).2]
    split
    · rfl
    · exact hone key
  · rw [hrep]
    constructor
    · intro hone'
      rw [hone deleted, ← (hgone deleted).2, ← hone' deleted, (hgone deleted).1, if_pos rfl]
    · intro hnone key
      rw [(hgone key).1, (hgone key).2, ← hone key]
      split
      · rename_i heq
        rw [heq, hnone]
      · rfl

/-- **Votes are replaced.**  In every run every vote in the table is the only one of its author on
its comment, and the last one that was stored; and in a run in which what is deleted is replaced,
the last one that was stored is there. -/
theorem votes_replaced (getPKCAddressFromPublicKey : String → Option Address) (t : VoteTables)
    (events : List Event) (s : State) :
    (Run (State.step getPKCAddressFromPublicKey) anyStep (start t) events s → AtMostTheLast s) ∧
      (Run (State.step getPKCAddressFromPublicKey) Replaces (start t) events s → OneVoteEach s) := by
  refine ⟨fun hrun => ?_, fun hrun => ?_⟩
  · exact hrun.invariant_of (I := State.Ok) (fun s hs => hs.last)
      (fun s a s' hs _ hstep => hs.step hstep) (start_ok t)
  · exact hrun.invariant_of (I := fun s => s.Ok ∧ OneVoteEach s) (fun s hs => hs.2)
      (fun s a s' hs hrep hstep => ⟨hs.1.step hstep, (oneVoteEach_step_iff hs.1 hs.2 hstep).2 hrep⟩)
      ⟨start_ok t, start_oneVoteEach t⟩

end Runs

/-! ## A vote that is changed -/

/-- A vote of Alice, who votes again. -/
def upvoted : VoteTables where
  comments := ["comment"]
  votes := [⟨"comment", "alice", 1, 1, "1.0.0", 1, none⟩]
  nodup_keys := List.nodup_singleton _

def vote (vote timestamp : Int) : VotePubsubMessagePublication :=
  ⟨vote, "comment", "1.0.0", timestamp, "alice", []⟩

/-- Two votes take turns; the later one is stored first. -/
theorem votes_replaced_turns : ∃ events s,
    Run (State.step some) Replaces (start upvoted) events s ∧ OneVoteEach s ∧
      s.lastStored ("comment", "alice") = some ⟨"comment", "alice", 2, 0, "1.0.0", 10, none⟩ := by
  have hrun : ∃ s, Run (State.step some) Replaces (start upvoted)
      [.call (vote 0 2), .call (vote (-1) 3), .resume 1 10 [], .resume 0 10 []] s ∧
        s.lastStored ("comment", "alice") = some ⟨"comment", "alice", 2, 0, "1.0.0", 10, none⟩ := by
    refine ⟨_, .cons trivial rfl <| .cons trivial rfl <| .cons ?_ rfl <| .cons ?_ rfl <| .nil _, rfl⟩
    all_goals
      intro props address hcall _
      cases hcall
      exact ⟨nofun, by decide⟩
  obtain ⟨s, hrun, hlast⟩ := hrun
  exact ⟨_, s, hrun, (votes_replaced some upvoted _ s).2 hrun, hlast⟩

/-- **A vote is lost.**  The new vote of Alice cannot be inserted; her earlier one is gone. -/
theorem not_oneVoteEach : ∃ events s, Run (State.step some) anyStep (start upvoted) events s ∧
    s.stored = upvoted.votes ∧ s.session.tables.votes = [] ∧ ¬ OneVoteEach s := by
  refine ⟨[.call (vote 0 2), .resume 0 10 [.done, .done, .done, .error]], _,
    .cons trivial rfl <| .cons trivial rfl <| .nil _, rfl, rfl, fun hone => ?_⟩
  exact absurd (congrArg List.length (hone ("comment", "alice"))) (by decide)

end StoredVotes
end Pkc

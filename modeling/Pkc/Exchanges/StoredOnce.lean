import Mathlib.Algebra.Order.Ring.Nat
import Mathlib.Data.Fin.VecNotation
import Mathlib.Data.Fintype.Basic
import Mathlib.Data.List.Pairwise
import Pkc.Library.Runs
import Pkc.Library.Tasks
import Pkc.Publish.Tables

/-!
# A comment is stored once

A client that gets no answer sends the same signed comment again, under a new challenge request.
The exchanges of one signature run one after the other: each waits for the promise of the one in
flight, for as long as an exchange may take, and then goes on.  A row is inserted after a check that
no row has its signatures, and the row is verified in between.

* `step` is what an exchange does up to its next `await`, in any order of the exchanges.
* `StoredOnce` is the promise: no two rows share a signature, and of the exchanges of a comment one
  has stored it.
* `RowsOk` is the invariant: the rows that have passed the check, but are not inserted, share no
  signature with each other or with what is stored.  `RowsOk.step` keeps it in every step in which
  an exchange that checks its row is `Alone`.
* `storedOnce` is the promise for every run of such steps; `not_storedOnce` shows what happens in
  others.
-/

set_option autoImplicit false

namespace Pkc
namespace StoredOnce

open Runs Tasks

/-! ## The exchanges -/

/-- A row of `comments`.  A comment that is published under an alias has the alias's signature, and
that of its author beside it. -/
structure Row (S : Type) where
  cid : Cid
  signature : S
  originalCommentSignatureEncoded : Option S
  pendingApproval : Bool
deriving DecidableEq, Repr

/-- What `hasCommentWithSignatureEncoded` looks for in a row, and what is looked for before it is
inserted. -/
def Row.signatures {S : Type} (row : Row S) : List S :=
  row.signature :: row.originalCommentSignatureEncoded.toList

/-- The rows share no signature. -/
def Row.Disjoint {S : Type} (row row' : Row S) : Prop :=
  ∀ signature ∈ row.signatures, signature ∉ row'.signatures

instance {S : Type} [DecidableEq S] (row row' : Row S) : Decidable (row.Disjoint row') :=
  inferInstanceAs (Decidable (∀ signature ∈ row.signatures, signature ∉ row'.signatures))

theorem Row.Disjoint.symm {S : Type} {row row' : Row S} (h : row.Disjoint row') :
    row'.Disjoint row :=
  fun signature hmem' hmem => h signature hmem hmem'

instance {S : Type} : Std.Symm (Row.Disjoint (S := S)) := ⟨fun _ _ => Row.Disjoint.symm⟩

/-- What becomes of an exchange. -/
inductive Outcome
  /-- The row is inserted, whatever the exchange is answered after that. -/
  | stored (cid : Cid)
  | idempotentSuccess
  | ERR_DUPLICATE_COMMENT
  /-- On its own account: the publication is not valid, its challenge is failed or not answered, or
  something it awaits before the insert is rejected. -/
  | refused
deriving DecidableEq, Repr

/-- Where an exchange is. -/
inductive Phase (E S : Type)
  /-- It awaits the promise of the exchange that was in flight. -/
  | waiting (inFlight : E)
  /-- Registered, and `checkPublicationValidity` is next. -/
  | validating (waitedForInFlightExchange : Bool)
  | challenging
  /-- Its challenge is passed: the row is made up, signed with an alias if need be, and added. -/
  | storing (pendingApproval : Bool)
  | added (row : Row S)
  /-- The row is no duplicate, and `assertStoredCommentIsVerbatim` is awaited. -/
  | checked (row : Row S)
  /-- It is answered, and `finally` is next. -/
  | ended (outcome : Outcome)
  /-- Its promise is resolved. -/
  | settled (outcome : Outcome)
deriving DecidableEq, Repr

structure Exchange (E S : Type) where
  /-- `publication.signature.signature` -/
  publicationSignature : S
  phase : Phase E S
deriving DecidableEq, Repr

structure State (E S : Type) where
  comments : List (Row S) := []
  inFlightPublicationExchanges : S → Option E := fun _ => none
  duplicatePublicationAttempts : S → Nat := fun _ => 0
  exchanges : E → Option (Exchange E S) := fun _ => none
  /-- The comments that were purged, or dropped as too many are pending. -/
  removed : List Cid := []

/-- How an exchange goes on. -/
inductive Resumption (S : Type)
  /-- The promise that it waits for is resolved. -/
  | resume
  /-- The ttl is over. -/
  | giveUp
  /-- `invalid`: not only as a duplicate.  `known`: there is an author to answer with. -/
  | validate (invalid known : Bool)
  /-- The result of the challenges, and whether the comment is to be approved. -/
  | challenged (challengeSuccess pendingApproval : Bool)
  | add (cid : Cid) (aliasSignature : Option S)
  | check (known : Bool)
  | insert
  | throws
  | settle
deriving DecidableEq, Repr

inductive Event (E S : Type)
  | request (e : E) (publicationSignature : S)
  | on (e : E) (resumption : Resumption S)
  | stop
  | remove (cids : List Cid)
deriving DecidableEq, Repr

section Step

variable {E S : Type} [DecidableEq E] [DecidableEq S]

def State.hasCommentWithSignatureEncoded (s : State E S) (signature : S) : Bool :=
  s.comments.any fun row => signature ∈ row.signatures

def State.go (s : State E S) (e : E) (x : Exchange E S) (phase : Phase E S) : State E S :=
  { s with exchanges := Function.update s.exchanges e (some { x with phase := phase }) }

/-- The exchange registers itself. -/
def State.enter (s : State E S) (e : E) (publicationSignature : S) (waited : Bool) : State E S :=
  { s with
    inFlightPublicationExchanges :=
      Function.update s.inFlightPublicationExchanges publicationSignature (some e)
    exchanges := Function.update s.exchanges e (some ⟨publicationSignature, .validating waited⟩) }

/-- The condition of the loop: it waits while another exchange is in flight. -/
def State.enterOrWait (s : State E S) (e : E) (publicationSignature : S) (waited : Bool) :
    State E S :=
  match s.inFlightPublicationExchanges publicationSignature with
  | none => s.enter e publicationSignature waited
  | some f =>
    { s with exchanges := Function.update s.exchanges e (some ⟨publicationSignature, .waiting f⟩) }

def State.isSettled (s : State E S) (e : E) : Bool :=
  (s.exchanges e).any fun x =>
    match x.phase with
    | .settled _ => true
    | _ => false

/-- `publishIdempotentDuplicateVerification`: a failure if there is nothing to answer with. -/
def State.idempotentOutcome (s : State E S) (publicationSignature : S) (known : Bool) : Outcome :=
  if s.hasCommentWithSignatureEncoded publicationSignature && known then .idempotentSuccess
  else .ERR_DUPLICATE_COMMENT

/-- A duplicate found by `checkPublicationValidity`.  The author has one retry; an exchange that has
waited does not count as one. -/
def State.duplicate (s : State E S) (e : E) (x : Exchange E S) (waited known : Bool) : State E S :=
  let attempts := s.duplicatePublicationAttempts x.publicationSignature + 1
  if waited then s.go e x (.ended (s.idempotentOutcome x.publicationSignature known))
  else
    State.go
      { s with
        duplicatePublicationAttempts :=
          Function.update s.duplicatePublicationAttempts x.publicationSignature attempts }
      e x
      (.ended
        (if attempts ≤ 1 then s.idempotentOutcome x.publicationSignature known
        else .ERR_DUPLICATE_COMMENT))

/-- What an exchange does up to its next `await`, if it stands there. -/
def State.resumeAt (s : State E S) (e : E) (x : Exchange E S) : Resumption S → Option (State E S)
  | .resume =>
    match x.phase with
    | .waiting f =>
      if s.isSettled f then some (s.enterOrWait e x.publicationSignature true) else none
    | _ => none
  | .giveUp =>
    match x.phase with
    | .waiting _ => some (s.enter e x.publicationSignature true)
    | _ => none
  | .validate invalid known =>
    match x.phase with
    | .validating waited =>
      if invalid then some (s.go e x (.ended .refused))
      else if s.hasCommentWithSignatureEncoded x.publicationSignature then
        some (s.duplicate e x waited known)
      else some (s.go e x .challenging)
    | _ => none
  | .challenged challengeSuccess pendingApproval =>
    match x.phase with
    | .challenging =>
      some (s.go e x (if challengeSuccess then .storing pendingApproval else .ended .refused))
    | _ => none
  | .add cid aliasSignature =>
    match x.phase with
    | .storing pendingApproval =>
      some (s.go e x (.added
        { cid := cid
          signature := aliasSignature.getD x.publicationSignature
          originalCommentSignatureEncoded := aliasSignature.map fun _ => x.publicationSignature
          pendingApproval := pendingApproval }))
    | _ => none
  | .check known =>
    match x.phase with
    | .added row =>
      if row.signatures.any s.hasCommentWithSignatureEncoded then
        some (s.go e x (.ended (s.idempotentOutcome x.publicationSignature known)))
      else some (s.go e x (.checked row))
    | _ => none
  | .insert =>
    match x.phase with
    | .checked row =>
      -- `cid` is the primary key
      if row.cid ∈ s.comments.map Row.cid then some (s.go e x (.ended .refused))
      else some (State.go { s with comments := row :: s.comments } e x (.ended (.stored row.cid)))
    | _ => none
  | .throws =>
    match x.phase with
    | .waiting _ | .ended _ | .settled _ => none
    | _ => some (s.go e x (.ended .refused))
  | .settle =>
    match x.phase with
    | .ended outcome =>
      -- only its own entry
      let inFlight := s.inFlightPublicationExchanges x.publicationSignature
      some (State.go
        { s with
          inFlightPublicationExchanges :=
            Function.update s.inFlightPublicationExchanges x.publicationSignature
              (if inFlight = some e then none else inFlight) }
        e x (.settled outcome))
    | _ => none

def step (s : State E S) : Event E S → Option (State E S)
  | .request e publicationSignature =>
    match s.exchanges e with
    | none => some (s.enterOrWait e publicationSignature false)
    -- a request under the same id is dropped
    | some _ => none
  | .stop =>
    some
      { s with
        inFlightPublicationExchanges := fun _ => none
        duplicatePublicationAttempts := fun _ => 0 }
  | .remove cids =>
    some
      { s with
        comments := s.comments.filter fun row => row.cid ∉ cids
        removed := cids ++ s.removed }
  | .on e resumption => (s.exchanges e).bind fun x => s.resumeAt e x resumption

end Step

/-! ## The promise -/

section Promise

variable {E S : Type}

def Phase.rowAdded : Phase E S → Option (Row S)
  | .added row => some row
  | _ => none

def Phase.rowChecked : Phase E S → Option (Row S)
  | .checked row => some row
  | _ => none

def Phase.outcome : Phase E S → Option Outcome
  | .ended outcome | .settled outcome => some outcome
  | _ => none

/-- The row an exchange is about to check. -/
def State.rowAdded (s : State E S) (e : E) : Option (Row S) :=
  (s.exchanges e).bind fun x => x.phase.rowAdded

/-- The row an exchange has checked, and is about to insert. -/
def State.rowChecked (s : State E S) (e : E) : Option (Row S) :=
  (s.exchanges e).bind fun x => x.phase.rowChecked

variable [DecidableEq S]

/-- A signature is one row's, as its own or as that of its author; and if an exchange has stored a
comment that is still there, the others of the comment have not. -/
structure OneCopy (s : State E S) : Prop where
  row : ∀ signature, (s.comments.filter fun row => signature ∈ row.signatures).length ≤ 1
  others : ∀ e f x y cid outcome, e ≠ f → s.exchanges e = some x → s.exchanges f = some y →
    x.publicationSignature = y.publicationSignature → x.phase.outcome = some (.stored cid) →
    cid ∉ s.removed → y.phase.outcome = some outcome →
    outcome = .idempotentSuccess ∨ outcome = .ERR_DUPLICATE_COMMENT ∨ outcome = .refused ∨
      ∃ cid' ∈ s.removed, outcome = .stored cid'

/-- An exchange checks its row while no other one has checked a row with one of its signatures. -/
def Alone (s : State E S) : Event E S → Prop
  | .on e (.check _) =>
    ∀ f, f ≠ e → ∀ row ∈ s.rowAdded e, ∀ row' ∈ s.rowChecked f, row.Disjoint row'
  | _ => True

end Promise

/-! ## What a step does -/

section Moves

variable {E S : Type} [DecidableEq E] [DecidableEq S]

/-- A phase of an exchange that is registered, in which it has no row that is checked or stored. -/
def Phase.Quiet (publicationSignature : S) : Phase E S → Prop
  | .validating _ | .challenging | .storing _ => True
  | .added row => publicationSignature ∈ row.signatures
  | .ended outcome => ∀ cid, outcome ≠ .stored cid
  | .waiting _ | .checked _ | .settled _ => False

/-- An exchange is registered from when it no longer waits until it is settled. -/
def Phase.isRegistered : Phase E S → Bool
  | .waiting _ | .settled _ => false
  | _ => true

/-- The exchange is new, or waits. -/
def State.Outside (s : State E S) (event : Event E S) (e : E) (publicationSignature : S) : Prop :=
  event = .request e publicationSignature ∨
    ∃ f, s.exchanges e = some ⟨publicationSignature, .waiting f⟩

inductive Move (s : State E S) : Event E S → State E S → Prop
  | wait {event : Event E S} (e f : E) (publicationSignature : S)
    (hnew : s.Outside event e publicationSignature) :
    Move s event
      { s with
        exchanges :=
          Function.update s.exchanges e (some ⟨publicationSignature, .waiting f⟩) }
  | enter {event : Event E S} (e : E) (publicationSignature : S) (waited : Bool)
    (hnew : s.Outside event e publicationSignature)
    (hfree : event ≠ .on e .giveUp →
      s.inFlightPublicationExchanges publicationSignature = none) :
    Move s event (s.enter e publicationSignature waited)
  | goOn {event : Event E S} (e : E) (x : Exchange E S) (phase : Phase E S) (attempts : S → Nat)
    (hx : s.exchanges e = some x) (hregistered : x.phase.isRegistered = true)
    (hquiet : phase.Quiet x.publicationSignature)
    (hadd : ∀ row, phase = .added row → ∃ cid aliasSignature,
      event = .on e (.add cid aliasSignature) ∧ ∀ signature ∈ row.signatures,
        signature = x.publicationSignature ∨ aliasSignature = some signature) :
    Move s event (State.go { s with duplicatePublicationAttempts := attempts } e x phase)
  | check (e : E) (x : Exchange E S) (row : Row S) (known : Bool) (hx : s.exchanges e = some x)
    (hphase : x.phase = .added row) (hnew : ∀ row' ∈ s.comments, row.Disjoint row') :
    Move s (.on e (.check known)) (s.go e x (.checked row))
  | insert {event : Event E S} (e : E) (x : Exchange E S) (row : Row S)
    (hx : s.exchanges e = some x) (hphase : x.phase = .checked row)
    (hcid : row.cid ∉ s.comments.map Row.cid) :
    Move s event
      (State.go { s with comments := row :: s.comments } e x (.ended (.stored row.cid)))
  | settle {event : Event E S} (e : E) (x : Exchange E S) (outcome : Outcome)
    (hx : s.exchanges e = some x) (hphase : x.phase = .ended outcome) :
    Move s event
      (State.go
        { s with
          inFlightPublicationExchanges :=
            Function.update s.inFlightPublicationExchanges x.publicationSignature
              (if s.inFlightPublicationExchanges x.publicationSignature = some e then none
              else s.inFlightPublicationExchanges x.publicationSignature) }
        e x (.settled outcome))
  | stop :
    Move s .stop
      { s with
        inFlightPublicationExchanges := fun _ => none
        duplicatePublicationAttempts := fun _ => 0 }
  | remove {event : Event E S} (cids : List Cid) :
    Move s event
      { s with
        comments := s.comments.filter fun row => row.cid ∉ cids
        removed := cids ++ s.removed }

variable {s s' : State E S}

theorem move_of_enterOrWait {event : Event E S} {e : E} {publicationSignature : S} {waited : Bool}
    (hnew : s.Outside event e publicationSignature) :
    Move s event (s.enterOrWait e publicationSignature waited) := by
  rw [State.enterOrWait]
  split
  · rename_i hfree
    exact .enter e publicationSignature waited hnew fun _ => hfree
  · exact .wait e _ publicationSignature hnew

omit [DecidableEq E] in
theorem idempotentOutcome_ne_stored {publicationSignature : S} {known : Bool} (cid : Cid) :
    s.idempotentOutcome publicationSignature known ≠ .stored cid := by
  rw [State.idempotentOutcome]
  split <;> simp

theorem move_of_duplicate {event : Event E S} {e : E} {x : Exchange E S} {waited known : Bool}
    (hx : s.exchanges e = some x) (hregistered : x.phase.isRegistered = true) :
    Move s event (s.duplicate e x waited known) := by
  rw [State.duplicate]
  split
  · exact .goOn e x _ s.duplicatePublicationAttempts hx hregistered idempotentOutcome_ne_stored
      nofun
  · refine .goOn e x _ _ hx hregistered (fun cid => ?_) nofun
    split
    · exact idempotentOutcome_ne_stored cid
    · simp

omit [DecidableEq E] in
theorem disjoint_of_not_hasComment {row : Row S}
    (h : ¬ row.signatures.any s.hasCommentWithSignatureEncoded = true) :
    ∀ row' ∈ s.comments, row.Disjoint row' := by
  intro row' hmem signature hsignature hsignature'
  refine h (List.any_eq_true.2 ⟨signature, hsignature, List.any_eq_true.2 ⟨row', hmem, ?_⟩⟩)
  exact decide_eq_true hsignature'

theorem move_of_resumeAt {e : E} {x : Exchange E S} {resumption : Resumption S}
    (hx : s.exchanges e = some x) (hstep : s.resumeAt e x resumption = some s') :
    Move s (.on e resumption) s' := by
  obtain ⟨publicationSignature, phase⟩ := x
  cases resumption with
  | resume =>
    cases phase with
    | waiting f =>
      obtain ⟨-, hstep⟩ := Option.ite_none_right_eq_some.1 hstep
      cases hstep
      exact move_of_enterOrWait (.inr ⟨f, hx⟩)
    | _ => cases hstep
  | giveUp =>
    cases phase with
    | waiting f =>
      cases hstep
      exact .enter e publicationSignature true (.inr ⟨f, hx⟩) fun hne => absurd rfl hne
    | _ => cases hstep
  | validate invalid known =>
    cases phase with
    | validating waited =>
      simp only [State.resumeAt] at hstep
      split at hstep
      · cases hstep
        exact .goOn e _ _ s.duplicatePublicationAttempts hx rfl (by simp [Phase.Quiet]) nofun
      · split at hstep
        · cases hstep
          exact move_of_duplicate hx rfl
        · cases hstep
          exact .goOn e _ _ s.duplicatePublicationAttempts hx rfl trivial nofun
    | _ => cases hstep
  | challenged challengeSuccess pendingApproval =>
    cases phase with
    | challenging =>
      cases hstep
      refine .goOn e _ _ s.duplicatePublicationAttempts hx rfl ?_ ?_
      · cases challengeSuccess <;> simp [Phase.Quiet]
      · cases challengeSuccess <;> simp
    | _ => cases hstep
  | add cid aliasSignature =>
    cases phase with
    | storing pendingApproval =>
      cases hstep
      refine .goOn e _ _ s.duplicatePublicationAttempts hx rfl ?_ ?_
      · cases aliasSignature <;> simp [Phase.Quiet, Row.signatures]
      · rintro row heq
        obtain rfl := Phase.added.inj heq
        refine ⟨cid, aliasSignature, rfl, ?_⟩
        cases aliasSignature <;> simp [Row.signatures]
    | _ => cases hstep
  | check known =>
    cases phase with
    | added row =>
      simp only [State.resumeAt] at hstep
      split at hstep
      · cases hstep
        exact .goOn e _ _ s.duplicatePublicationAttempts hx rfl idempotentOutcome_ne_stored nofun
      · rename_i hnew
        cases hstep
        exact .check e _ row known hx rfl (disjoint_of_not_hasComment hnew)
    | _ => cases hstep
  | insert =>
    cases phase with
    | checked row =>
      simp only [State.resumeAt] at hstep
      split at hstep
      · cases hstep
        exact .goOn e _ _ s.duplicatePublicationAttempts hx rfl (by simp [Phase.Quiet]) nofun
      · rename_i hcid
        cases hstep
        exact .insert e _ row hx rfl hcid
    | _ => cases hstep
  | throws =>
    have hrefused : (Phase.ended .refused : Phase E S).Quiet publicationSignature := by
      simp [Phase.Quiet]
    cases phase with
    | waiting f => cases hstep
    | ended outcome => cases hstep
    | settled outcome => cases hstep
    | _ =>
      cases hstep
      exact .goOn e _ _ s.duplicatePublicationAttempts hx rfl hrefused nofun
  | settle =>
    cases phase with
    | ended outcome =>
      cases hstep
      exact .settle e _ outcome hx rfl
    | _ => cases hstep

/-- **What a step does.** -/
theorem move_of_step {event : Event E S} (hstep : step s event = some s') : Move s event s' := by
  cases event with
  | request e publicationSignature =>
    rw [step] at hstep
    split at hstep
    · cases hstep
      exact move_of_enterOrWait (.inl rfl)
    · cases hstep
  | on e resumption =>
    obtain ⟨x, hx, hstep⟩ := Option.bind_eq_some_iff.1 hstep
    exact move_of_resumeAt hx hstep
  | stop =>
    cases hstep
    exact .stop
  | remove cids =>
    cases hstep
    exact .remove cids

end Moves

/-! ## The invariant -/

section Invariant

variable {E S : Type}

/-- The rows that are stored and those that are checked share no signature, and a row has the
signature of its exchange. -/
structure RowsOk (s : State E S) : Prop where
  pairwise : s.comments.Pairwise Row.Disjoint
  fresh : ∀ e x row, s.exchanges e = some x → x.phase.rowChecked = some row →
    ∀ row' ∈ s.comments, row.Disjoint row'
  checked : ∀ e f x y row row', e ≠ f → s.exchanges e = some x → s.exchanges f = some y →
    x.phase.rowChecked = some row → y.phase.rowChecked = some row' → row.Disjoint row'
  ownAdded : ∀ e x row, s.exchanges e = some x → x.phase.rowAdded = some row →
    x.publicationSignature ∈ row.signatures
  ownChecked : ∀ e x row, s.exchanges e = some x → x.phase.rowChecked = some row →
    x.publicationSignature ∈ row.signatures
  stored : ∀ e x cid, s.exchanges e = some x → x.phase.outcome = some (.stored cid) →
    cid ∈ s.removed ∨ ∃ row ∈ s.comments, row.cid = cid ∧ x.publicationSignature ∈ row.signatures
  once : ∀ e f x y cid, e ≠ f → s.exchanges e = some x → s.exchanges f = some y →
    x.phase.outcome = some (.stored cid) → y.phase.outcome = some (.stored cid) → cid ∈ s.removed

theorem rowsOk_initial : RowsOk ({} : State E S) :=
  { pairwise := .nil
    fresh := fun _ _ _ h => by cases h
    checked := fun _ _ _ _ _ _ _ h => by cases h
    ownAdded := fun _ _ _ h => by cases h
    ownChecked := fun _ _ _ h => by cases h
    stored := fun _ _ _ h => by cases h
    once := fun _ _ _ _ _ _ h => by cases h }

variable [DecidableEq E] {s t : State E S} {e : E} {x : Exchange E S}

/-- An exchange goes on without a row that is checked, and as one that has stored a comment only if
it has. -/
theorem RowsOk.update (h : RowsOk s) (hcomments : t.comments = s.comments)
    (hremoved : t.removed = s.removed)
    (hexchanges : t.exchanges = Function.update s.exchanges e (some x))
    (hchecked : x.phase.rowChecked = none)
    (hadded : ∀ row, x.phase.rowAdded = some row → x.publicationSignature ∈ row.signatures)
    (hstored : ∀ cid, x.phase.outcome = some (.stored cid) → ∃ y, s.exchanges e = some y ∧
      y.publicationSignature = x.publicationSignature ∧ y.phase.outcome = some (.stored cid)) :
    RowsOk t := by
  have hold {f : E} {y : Exchange E S} (hy : t.exchanges f = some y) :
      f = e ∧ x = y ∨ f ≠ e ∧ s.exchanges f = some y := by
    rw [hexchanges] at hy
    simpa using update_eq_some.1 hy
  have holdChecked {f : E} {y : Exchange E S} {row : Row S} (hy : t.exchanges f = some y)
      (hrow : y.phase.rowChecked = some row) : s.exchanges f = some y := by
    rcases hold hy with ⟨-, rfl⟩ | ⟨-, hy⟩
    · simp [hchecked] at hrow
    · exact hy
  have holdStored {f : E} {y : Exchange E S} {cid : Cid} (hy : t.exchanges f = some y)
      (hcid : y.phase.outcome = some (.stored cid)) : ∃ z, s.exchanges f = some z ∧
        z.publicationSignature = y.publicationSignature ∧
        z.phase.outcome = some (.stored cid) := by
    rcases hold hy with ⟨rfl, rfl⟩ | ⟨-, hy⟩
    · exact hstored cid hcid
    · exact ⟨y, hy, rfl, hcid⟩
  refine
    { pairwise := hcomments ▸ h.pairwise
      fresh := fun f y row hy hrow => ?_
      checked := fun f g y z row row' hne hy hz hrow hrow' => ?_
      ownAdded := fun f y row hy hrow => ?_
      ownChecked := fun f y row hy hrow => ?_
      stored := fun f y cid hy hcid => ?_
      once := fun f g y z cid hne hy hz hcid hcid' => ?_ }
  · rw [hcomments]
    exact h.fresh f y row (holdChecked hy hrow) hrow
  · exact h.checked f g y z row row' hne (holdChecked hy hrow) (holdChecked hz hrow') hrow hrow'
  · rcases hold hy with ⟨-, rfl⟩ | ⟨-, hy⟩
    · exact hadded row hrow
    · exact h.ownAdded f y row hy hrow
  · exact h.ownChecked f y row (holdChecked hy hrow) hrow
  · obtain ⟨z, hz, hsignature, hcid⟩ := holdStored hy hcid
    rw [hcomments, hremoved, ← hsignature]
    exact h.stored f z cid hz hcid
  · obtain ⟨y', hy', -, hcid⟩ := holdStored hy hcid
    obtain ⟨z', hz', -, hcid'⟩ := holdStored hz hcid'
    rw [hremoved]
    exact h.once f g y' z' cid hne hy' hz' hcid hcid'

/-- What an exchange is once one of them has gone on to another phase. -/
theorem go_exchanges {phase : Phase E S} {f : E} {y : Exchange E S}
    (hy : (s.go e x phase).exchanges f = some y) :
    f = e ∧ { x with phase := phase } = y ∨ f ≠ e ∧ s.exchanges f = some y := by
  simpa using update_eq_some.1 hy

theorem RowsOk.check {row : Row S} (h : RowsOk s) (hx : s.exchanges e = some x)
    (hphase : x.phase = .added row) (hnew : ∀ row' ∈ s.comments, row.Disjoint row')
    (halone : ∀ f, f ≠ e → ∀ row' ∈ s.rowChecked f, row.Disjoint row') :
    RowsOk (s.go e x (.checked row)) := by
  have hown : x.publicationSignature ∈ row.signatures :=
    h.ownAdded e x row hx (by rw [hphase]; rfl)
  have hchecked {f : E} {y : Exchange E S} {row' : Row S} (hne : f ≠ e)
      (hy : s.exchanges f = some y) (hrow' : y.phase.rowChecked = some row') :
      row.Disjoint row' :=
    halone f hne row' (Option.bind_eq_some_iff.2 ⟨y, hy, hrow'⟩)
  refine
    { pairwise := h.pairwise
      fresh := fun f y row' hy hrow' => ?_
      checked := fun f g y z row' row'' hne hy hz hrow' hrow'' => ?_
      ownAdded := fun f y row' hy hrow' => ?_
      ownChecked := fun f y row' hy hrow' => ?_
      stored := fun f y cid hy hcid => ?_
      once := fun f g y z cid hne hy hz hcid hcid' => ?_ }
  · rcases go_exchanges hy with ⟨-, rfl⟩ | ⟨-, hy⟩
    · obtain rfl := Option.some.inj hrow'
      exact hnew
    · exact h.fresh f y row' hy hrow'
  · rcases go_exchanges hy with ⟨rfl, rfl⟩ | ⟨hf, hy⟩
    · obtain rfl := Option.some.inj hrow'
      rcases go_exchanges hz with ⟨rfl, -⟩ | ⟨hg, hz⟩
      · exact absurd rfl hne
      · exact hchecked hg hz hrow''
    · rcases go_exchanges hz with ⟨-, rfl⟩ | ⟨hg, hz⟩
      · obtain rfl := Option.some.inj hrow''
        exact (hchecked hf hy hrow').symm
      · exact h.checked f g y z row' row'' hne hy hz hrow' hrow''
  · rcases go_exchanges hy with ⟨-, rfl⟩ | ⟨-, hy⟩
    · cases hrow'
    · exact h.ownAdded f y row' hy hrow'
  · rcases go_exchanges hy with ⟨-, rfl⟩ | ⟨-, hy⟩
    · obtain rfl := Option.some.inj hrow'
      exact hown
    · exact h.ownChecked f y row' hy hrow'
  · rcases go_exchanges hy with ⟨-, rfl⟩ | ⟨-, hy⟩
    · cases hcid
    · exact h.stored f y cid hy hcid
  · rcases go_exchanges hy with ⟨-, rfl⟩ | ⟨-, hy⟩
    · cases hcid
    · rcases go_exchanges hz with ⟨-, rfl⟩ | ⟨-, hz⟩
      · cases hcid'
      · exact h.once f g y z cid hne hy hz hcid hcid'

theorem RowsOk.insert {row : Row S} (h : RowsOk s) (hx : s.exchanges e = some x)
    (hphase : x.phase = .checked row) (hcid : row.cid ∉ s.comments.map Row.cid) :
    RowsOk (State.go { s with comments := row :: s.comments } e x (.ended (.stored row.cid))) := by
  have hrow : x.phase.rowChecked = some row := by rw [hphase]; rfl
  -- an exchange that has stored a comment with this cid has it removed
  have hremoved {f : E} {y : Exchange E S} (hy : s.exchanges f = some y)
      (hstored : y.phase.outcome = some (.stored row.cid)) : row.cid ∈ s.removed := by
    rcases h.stored f y row.cid hy hstored with hremoved | ⟨row', hmem, heq, -⟩
    · exact hremoved
    · exact absurd (List.mem_map.2 ⟨row', hmem, heq⟩) hcid
  refine
    { pairwise := List.pairwise_cons.2 ⟨h.fresh e x row hx hrow, h.pairwise⟩
      fresh := fun f y row' hy hrow' => ?_
      checked := fun f g y z row' row'' hne hy hz hrow' hrow'' => ?_
      ownAdded := fun f y row' hy hrow' => ?_
      ownChecked := fun f y row' hy hrow' => ?_
      stored := fun f y cid hy hstored => ?_
      once := fun f g y z cid hne hy hz hstored hstored' => ?_ }
  · rcases go_exchanges hy with ⟨-, rfl⟩ | ⟨hf, hy⟩
    · cases hrow'
    · exact List.forall_mem_cons.2
        ⟨h.checked f e y x row' row hf hy hx hrow' hrow, h.fresh f y row' hy hrow'⟩
  · rcases go_exchanges hy with ⟨-, rfl⟩ | ⟨-, hy⟩
    · cases hrow'
    · rcases go_exchanges hz with ⟨-, rfl⟩ | ⟨-, hz⟩
      · cases hrow''
      · exact h.checked f g y z row' row'' hne hy hz hrow' hrow''
  · rcases go_exchanges hy with ⟨-, rfl⟩ | ⟨-, hy⟩
    · cases hrow'
    · exact h.ownAdded f y row' hy hrow'
  · rcases go_exchanges hy with ⟨-, rfl⟩ | ⟨-, hy⟩
    · cases hrow'
    · exact h.ownChecked f y row' hy hrow'
  · rcases go_exchanges hy with ⟨-, rfl⟩ | ⟨-, hy⟩
    · cases hstored
      exact .inr ⟨row, List.mem_cons_self .., rfl, h.ownChecked e x row hx hrow⟩
    · refine (h.stored f y cid hy hstored).imp_right ?_
      rintro ⟨row', hmem, hrow'⟩
      exact ⟨row', List.mem_cons_of_mem _ hmem, hrow'⟩
  · rcases go_exchanges hy with ⟨rfl, rfl⟩ | ⟨-, hy⟩
    · cases hstored
      rcases go_exchanges hz with ⟨rfl, -⟩ | ⟨-, hz⟩
      · exact absurd rfl hne
      · exact hremoved hz hstored'
    · rcases go_exchanges hz with ⟨-, rfl⟩ | ⟨-, hz⟩
      · cases hstored'
        exact hremoved hy hstored
      · exact h.once f g y z cid hne hy hz hstored hstored'

omit [DecidableEq E] in
theorem RowsOk.remove (h : RowsOk s) (cids : List Cid) :
    RowsOk
      { s with
        comments := s.comments.filter fun row => row.cid ∉ cids
        removed := cids ++ s.removed } where
  __ := h
  pairwise := h.pairwise.filter _
  fresh f y row hy hrow row' hmem := h.fresh f y row hy hrow row' (List.mem_of_mem_filter hmem)
  stored f y cid hy hcid := by
    by_cases hmem : cid ∈ cids
    · exact .inl (List.mem_append_left _ hmem)
    · refine (h.stored f y cid hy hcid).imp (List.mem_append_right _) ?_
      rintro ⟨row, hrow, rfl, hsignature⟩
      exact ⟨row, List.mem_filter.2 ⟨hrow, decide_eq_true hmem⟩, rfl, hsignature⟩
  once f g y z cid hne hy hz hcid hcid' :=
    List.mem_append_right _ (h.once f g y z cid hne hy hz hcid hcid')

variable [DecidableEq S]

/-- **A step in which an exchange that checks its row is alone keeps the invariant.** -/
theorem RowsOk.step {event : Event E S} (h : RowsOk s) (halone : Alone s event)
    (hstep : StoredOnce.step s event = some t) : RowsOk t := by
  cases move_of_step hstep with
  | wait e f publicationSignature _ =>
    exact h.update rfl rfl rfl rfl (fun _ h => nomatch h) fun _ h => nomatch h
  | enter e publicationSignature waited _ _ =>
    exact h.update rfl rfl rfl rfl (fun _ h => nomatch h) fun _ h => nomatch h
  | goOn e x phase attempts hx _ hquiet _ =>
    refine h.update (x := { x with phase := phase }) rfl rfl rfl ?_ (fun row hrow => ?_)
      fun cid hcid => ?_
    · cases phase <;> first | rfl | exact hquiet.elim
    · cases phase with
      | added row' =>
        obtain rfl := Option.some.inj hrow
        exact hquiet
      | _ => cases hrow
    · cases phase with
      | ended outcome => exact absurd (Option.some.inj hcid) (hquiet cid)
      | settled outcome => exact hquiet.elim
      | _ => cases hcid
  | check e x row known hx hphase hnew =>
    refine h.check hx hphase hnew fun f hf row' hrow' => ?_
    exact halone f hf row (Option.bind_eq_some_iff.2 ⟨x, hx, by rw [hphase]; rfl⟩) row' hrow'
  | insert e x row hx hphase hcid => exact h.insert hx hphase hcid
  | settle e x outcome hx hphase =>
    refine h.update (x := { x with phase := .settled outcome }) rfl rfl rfl rfl
      (fun _ h => nomatch h) fun cid hcid => ⟨x, hx, rfl, ?_⟩
    rw [hphase]
    exact hcid
  | stop => exact ⟨h.pairwise, h.fresh, h.checked, h.ownAdded, h.ownChecked, h.stored, h.once⟩
  | remove cids => exact h.remove cids

end Invariant

/-! ## The promise is kept -/

section Kept

variable {E S : Type} [DecidableEq E] [DecidableEq S] {s t : State E S}

omit [DecidableEq E] [DecidableEq S] in
theorem eq_of_signature_mem {rows : List (Row S)} (h : rows.Pairwise Row.Disjoint)
    {row row' : Row S} (hrow : row ∈ rows) (hrow' : row' ∈ rows) {signature : S}
    (hmem : signature ∈ row.signatures) (hmem' : signature ∈ row'.signatures) : row = row' := by
  by_contra hne
  exact h.forall hrow hrow' hne signature hmem hmem'

omit [DecidableEq E] in
theorem length_filter_le_one {rows : List (Row S)} (h : rows.Pairwise Row.Disjoint)
    (signature : S) : (rows.filter fun row => signature ∈ row.signatures).length ≤ 1 := by
  induction rows with
  | nil => simp
  | cons row rows ih =>
    obtain ⟨hrow, hrows⟩ := List.pairwise_cons.1 h
    by_cases hmem : signature ∈ row.signatures
    · have hnone : rows.filter (fun row => signature ∈ row.signatures) = [] :=
        List.filter_eq_nil_iff.2 fun row' hrow' => by
          simpa using hrow row' hrow' signature hmem
      simp [hmem, hnone]
    · simpa [hmem] using ih hrows

omit [DecidableEq E] in
theorem RowsOk.oneCopy (h : RowsOk s) : OneCopy s where
  row := length_filter_le_one h.pairwise
  others e f x y cid outcome hne hx hy hsignature hcid hthere houtcome := by
    cases outcome with
    | idempotentSuccess => exact .inl rfl
    | ERR_DUPLICATE_COMMENT => exact .inr (.inl rfl)
    | refused => exact .inr (.inr (.inl rfl))
    | stored cid' =>
      refine .inr (.inr (.inr ⟨cid', ?_, rfl⟩))
      obtain hremoved | ⟨row, hrow, rfl, hmem⟩ := h.stored e x cid hx hcid
      · exact absurd hremoved hthere
      obtain hremoved' | ⟨row', hrow', rfl, hmem'⟩ := h.stored f y cid' hy houtcome
      · exact hremoved'
      -- both have stored the one row of the signature
      rw [← hsignature] at hmem'
      obtain rfl := eq_of_signature_mem h.pairwise hrow hrow' hmem hmem'
      exact absurd (h.once e f x y row.cid hne hx hy hcid houtcome) hthere

/-- **A comment is stored once**, in every run in which an exchange that checks its row for
duplicates is the only one with such a row between its check and its insert. -/
theorem storedOnce {events : List (Event E S)} (hrun : Run step Alone {} events t) : OneCopy t :=
  hrun.invariant_of (fun _ => RowsOk.oneCopy)
    (fun _ _ _ h halone hstep => h.step halone hstep) rowsOk_initial

end Kept

/-! ## Two requests for one comment -/

section TwoRequests

instance {E S : Type} [Fintype E] [DecidableEq E] [DecidableEq S] (s : State E S) :
    (event : Event E S) → Decidable (Alone s event)
  | .on e (.check _) =>
    inferInstanceAs (Decidable (∀ f, f ≠ e → ∀ row ∈ s.rowAdded e, ∀ row' ∈ s.rowChecked f,
      row.Disjoint row'))
  | .on _ .resume | .on _ .giveUp | .on _ (.validate _ _) | .on _ (.challenged _ _)
  | .on _ (.add _ _) | .on _ .insert | .on _ .throws | .on _ .settle
  | .request _ _ | .stop | .remove _ => inferInstanceAs (Decidable True)

def firstExchange : Fin 2 := ⟨0, Nat.zero_lt_two⟩

def secondExchange : Fin 2 := ⟨1, Nat.one_lt_two⟩

/-- The only signature. -/
def theSignature : Fin 1 := ⟨0, Nat.zero_lt_one⟩

/-- An exchange passes everything before its check. -/
def upToAdd (e : Fin 2) (cid : Cid) : List (Event (Fin 2) (Fin 1)) :=
  [.on e (.validate false true), .on e (.challenged true false), .on e (.add cid none)]

/-- The second request waits for the first one, and is then answered with what that has stored. -/
def patientRequests : List (Event (Fin 2) (Fin 1)) :=
  [.request firstExchange theSignature, .request secondExchange theSignature] ++
    upToAdd firstExchange "first" ++
    [.on firstExchange (.check true), .on firstExchange .insert, .on firstExchange .settle,
      .on secondExchange .resume, .on secondExchange (.validate false true)]

theorem storedOnce_patientRequests : ∃ t : State (Fin 2) (Fin 1), OneCopy t ∧
    t.comments.map Row.cid = ["first"] ∧
    (t.exchanges 1).bind (fun x => x.phase.outcome) = some .idempotentSuccess := by
  have hexec : (execOk step Alone {} patientRequests).map
      (fun t => (t.comments.map Row.cid, (t.exchanges 1).bind fun x => x.phase.outcome)) =
        some (["first"], some .idempotentSuccess) := by
    decide +kernel
  obtain ⟨t, ht, heq⟩ := Option.map_eq_some_iff.1 hexec
  obtain ⟨hcomments, houtcome⟩ := Prod.mk.inj heq
  exact ⟨t, storedOnce (Run.of_execOk ht), hcomments, houtcome⟩

/-- The second request gives up to wait, and both check their row before one is inserted. -/
def impatientRequests : List (Event (Fin 2) (Fin 1)) :=
  [.request firstExchange theSignature, .request secondExchange theSignature,
      .on secondExchange .giveUp] ++
    upToAdd firstExchange "first" ++ upToAdd secondExchange "second" ++
    [.on firstExchange (.check true), .on secondExchange (.check true), .on firstExchange .insert,
      .on secondExchange .insert]

/-- **A comment is stored twice.** -/
theorem not_storedOnce : ¬ ∀ (events : List (Event (Fin 2) (Fin 1))) (t : State (Fin 2) (Fin 1)),
    Run step anyStep {} events t → OneCopy t := by
  intro hkept
  have hexec : (exec step {} impatientRequests).map
      (fun t => (t.comments.filter fun row => (0 : Fin 1) ∈ row.signatures).length) = some 2 := by
    decide +kernel
  obtain ⟨t, ht, hlength⟩ := Option.map_eq_some_iff.1 hexec
  have hone := (hkept _ t (Run.of_exec ht)).row 0
  omega

end TwoRequests

end StoredOnce
end Pkc

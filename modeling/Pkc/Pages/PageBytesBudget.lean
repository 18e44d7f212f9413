import Mathlib.Algebra.BigOperators.Group.List.Basic
import Mathlib.Algebra.Order.Group.Int
import Mathlib.Algebra.Ring.Int.Defs
import Mathlib.Data.List.Nodup
import Pkc.Library.Runs

/-!
# The budget of the pages that are built at once

A page waits until its bytes fit what is left of a budget, and one that does not fit the whole
budget until nothing is in flight.  Who releases lets in those of the waiting that fit then, in the
order in which they came.

* `State` is the budget with the calls of `acquire` that were made; a call is in flight from where
  it is counted until its holder releases it, which a holder may do any number of times.
* `letIn` is the loop of a release.  `admit_perm`, `inFlight_letIn`, `not_fits_of_mem_letIn` and
  `capped_letIn` say what it keeps.
* `Inv` is what holds in every state, and `budget_sound` what follows for the holders.
* A page of no bytes counts for nothing: see `not_capped_of_empty_page`.
-/

set_option autoImplicit false

namespace Pkc
namespace PageBytesBudget

open Runs

/-! ## The budget -/

/-- A call of `acquire`, by its place among the calls. -/
structure Call where
  id : Nat
  bytes : Nat
deriving DecidableEq, Repr

structure State where
  inFlight : Int
  waiting : List Call
  /-- How many calls there were. -/
  calls : Nat
  /-- The calls that have been counted, in that order. -/
  admitted : List Call
  /-- The calls that have returned what releases them. -/
  holders : List Call
  /-- The calls whose `released` is set. -/
  released : List Call

def State.init : State := ⟨0, [], 0, [], [], []⟩

def fits (budgetBytes inFlight : Int) (bytes : Nat) : Bool :=
  inFlight = 0 ∨ inFlight + bytes ≤ budgetBytes

/-- What a release leaves: the bytes in flight, who still waits, and who was let in. -/
structure Admission where
  inFlight : Int
  waiting : List Call
  admitted : List Call

/-- The loop of a release, from the waiting call that it has come to. -/
def letIn (budgetBytes : Int) : Int → List Call → Admission
  | inFlight, [] => ⟨inFlight, [], []⟩
  | inFlight, next :: waiting =>
    if fits budgetBytes inFlight next.bytes then
      let rest := letIn budgetBytes (inFlight + next.bytes) waiting
      { rest with admitted := next :: rest.admitted }
    else
      let rest := letIn budgetBytes inFlight waiting
      { rest with waiting := next :: rest.waiting }

inductive Action
  | acquire (bytes : Nat)
  /-- The call returns to its caller. -/
  | resume (call : Call)
  | release (call : Call)

def acquire (budgetBytes : Int) (bytes : Nat) (s : State) : State :=
  let call : Call := ⟨s.calls, bytes⟩
  let s := { s with calls := s.calls + 1 }
  if fits budgetBytes s.inFlight bytes then
    { s with inFlight := s.inFlight + bytes, admitted := s.admitted ++ [call] }
  else { s with waiting := s.waiting ++ [call] }

def release (budgetBytes : Int) (call : Call) (s : State) : State :=
  if call ∈ s.released then s
  else
    let rest := letIn budgetBytes (s.inFlight - call.bytes) s.waiting
    { s with
      released := call :: s.released
      inFlight := rest.inFlight
      waiting := rest.waiting
      admitted := s.admitted ++ rest.admitted }

def step (budgetBytes : Int) (s : State) : Action → Option State
  | .acquire bytes => some (acquire budgetBytes bytes s)
  | .resume call =>
    if call ∈ s.admitted then some { s with holders := call :: s.holders } else none
  | .release call => if call ∈ s.holders then some (release budgetBytes call s) else none

/-- The calls that are in flight. -/
def State.held (s : State) : List Call := s.admitted.filter fun call => call ∉ s.released

def bytesOf (calls : List Call) : Int := (calls.map fun call => (call.bytes : Int)).sum

/-- The calls are within the budget, but for one page that has any bytes. -/
def Capped (budgetBytes : Int) (calls : List Call) : Prop :=
  bytesOf calls ≤ budgetBytes ∨ (calls.filter fun call => 0 < call.bytes).length ≤ 1

/-- What the holders can rely on. -/
structure Sound (budgetBytes : Int) (s : State) : Prop where
  counted : s.inFlight = bytesOf s.held
  capped : Capped budgetBytes s.held
  once : (s.admitted.map Call.id).Nodup
  progress : (∀ call ∈ s.admitted, call ∈ s.released) → s.waiting = []

/-! ## Bytes and fitting -/

section Calls

variable {budgetBytes inFlight : Int} {calls waiting : List Call} {call : Call} {bytes : Nat}

@[simp] theorem bytesOf_nil : bytesOf [] = 0 := rfl

@[simp] theorem bytesOf_cons : bytesOf (call :: calls) = call.bytes + bytesOf calls := rfl

@[simp] theorem bytesOf_append (calls' : List Call) :
    bytesOf (calls ++ calls') = bytesOf calls + bytesOf calls' := by
  simp [bytesOf]

theorem bytesOf_nonneg (calls : List Call) : 0 ≤ bytesOf calls := by
  induction calls with
  | nil => exact le_refl 0
  | cons call calls ih =>
    rw [bytesOf_cons]
    omega

theorem bytesOf_erase (h : call ∈ calls) :
    bytesOf (calls.erase call) = bytesOf calls - call.bytes := by
  have hperm := (List.perm_cons_erase h).map fun call => (call.bytes : Int)
  have hsum := hperm.sum_eq
  rw [List.map_cons, List.sum_cons] at hsum
  rw [bytesOf, bytesOf, hsum]
  omega

theorem fits_iff :
    fits budgetBytes inFlight bytes ↔ inFlight = 0 ∨ inFlight + bytes ≤ budgetBytes := by
  rw [fits, decide_eq_true_iff]

/-- What does not fit still does not fit once more is in flight. -/
theorem not_fits_mono {inFlight' : Int} (hpos : 0 ≤ inFlight) (hle : inFlight ≤ inFlight')
    (h : ¬ fits budgetBytes inFlight bytes) : ¬ fits budgetBytes inFlight' bytes := by
  rw [fits_iff] at h ⊢
  omega

theorem eq_nil_of_bytesOf_eq_zero (h : bytesOf calls = 0) :
    (calls.filter fun call => 0 < call.bytes) = [] := by
  induction calls with
  | nil => rfl
  | cons call calls ih =>
    have hpos := bytesOf_nonneg calls
    rw [bytesOf_cons] at h
    rw [List.filter_cons_of_neg (by simp; omega)]
    exact ih (by omega)

theorem capped_nil : Capped budgetBytes [] := .inr (Nat.zero_le 1)

theorem Capped.sublist {calls' : List Call} (h : Capped budgetBytes calls)
    (hsub : calls'.Sublist calls) (hle : bytesOf calls' ≤ bytesOf calls) :
    Capped budgetBytes calls' :=
  h.imp (fun hcap => hle.trans hcap) fun hone => (hsub.filter _).length_le.trans hone

/-- One call more, if it fits. -/
theorem Capped.concat (hfits : fits budgetBytes (bytesOf calls) call.bytes) :
    Capped budgetBytes (calls ++ [call]) := by
  rw [fits_iff] at hfits
  rcases hfits with hzero | hle
  · right
    rw [List.filter_append, eq_nil_of_bytesOf_eq_zero hzero, List.nil_append]
    exact List.length_filter_le _ [call]
  · left
    simpa using hle

/-! ## The loop of a release -/

theorem admit_perm (inFlight : Int) (waiting : List Call) :
    ((letIn budgetBytes inFlight waiting).admitted ++
      (letIn budgetBytes inFlight waiting).waiting).Perm waiting := by
  induction waiting generalizing inFlight with
  | nil => exact List.Perm.refl []
  | cons next waiting ih =>
    rw [letIn]
    split
    · exact (ih _).cons next
    · exact List.perm_middle.trans ((ih _).cons next)

theorem inFlight_letIn (inFlight : Int) (waiting : List Call) :
    (letIn budgetBytes inFlight waiting).inFlight
      = inFlight + bytesOf (letIn budgetBytes inFlight waiting).admitted := by
  induction waiting generalizing inFlight with
  | nil => exact (Int.add_zero inFlight).symm
  | cons next waiting ih =>
    rw [letIn]
    split
    · simp only [bytesOf_cons, ih]
      omega
    · exact ih _

theorem le_inFlight_letIn (inFlight : Int) (waiting : List Call) :
    inFlight ≤ (letIn budgetBytes inFlight waiting).inFlight := by
  rw [inFlight_letIn]
  have hpos := bytesOf_nonneg (letIn budgetBytes inFlight waiting).admitted
  omega

/-- Who has been passed over does not fit what is in flight in the end either. -/
theorem not_fits_of_mem_letIn (hpos : 0 ≤ inFlight) :
    ∀ waiter ∈ (letIn budgetBytes inFlight waiting).waiting,
      ¬ fits budgetBytes (letIn budgetBytes inFlight waiting).inFlight waiter.bytes := by
  induction waiting generalizing inFlight with
  | nil =>
    intro waiter hwaiter
    cases hwaiter
  | cons next waiting ih =>
    rw [letIn]
    split
    · exact ih (by omega)
    · rename_i hfits
      intro waiter hwaiter
      rcases List.mem_cons.1 hwaiter with rfl | hwaiter
      · exact not_fits_mono hpos (le_inFlight_letIn _ _) hfits
      · exact ih hpos waiter hwaiter

theorem capped_letIn (h : Capped budgetBytes calls) :
    Capped budgetBytes
      (calls ++ (letIn budgetBytes (bytesOf calls) waiting).admitted) := by
  induction waiting generalizing calls with
  | nil => rwa [letIn, List.append_nil]
  | cons next waiting ih =>
    rw [letIn]
    split
    · rename_i hfits
      have hrest := ih (Capped.concat hfits)
      rw [bytesOf_append, bytesOf_cons, bytesOf_nil, Int.add_zero, List.append_assoc] at hrest
      exact hrest
    · exact ih h

end Calls

/-! ## Every state -/

/-- What holds in every state. -/
structure Inv (budgetBytes : Int) (s : State) : Prop where
  counted : s.inFlight = bytesOf s.held
  capped : Capped budgetBytes s.held
  nodup : ((s.admitted ++ s.waiting).map Call.id).Nodup
  known : ∀ call ∈ s.admitted ++ s.waiting, call.id < s.calls
  held : ∀ call ∈ s.holders, call ∈ s.admitted
  released : ∀ call ∈ s.released, call ∈ s.holders
  /-- Nobody waits who fits. -/
  settled : ∀ waiter ∈ s.waiting, ¬ fits budgetBytes s.inFlight waiter.bytes

namespace Inv

variable {budgetBytes : Int} {s : State} {call : Call}

theorem init : Inv budgetBytes State.init where
  counted := rfl
  capped := capped_nil
  nodup := List.nodup_nil
  known := by simp [State.init]
  held := by simp [State.init]
  released := by simp [State.init]
  settled := by simp [State.init]

theorem inFlight_nonneg (h : Inv budgetBytes s) : 0 ≤ s.inFlight :=
  h.counted ▸ bytesOf_nonneg s.held

theorem not_mem_released (h : Inv budgetBytes s) (hcall : call ∈ s.waiting) :
    call ∉ s.released := by
  intro hreleased
  have hdisjoint := List.disjoint_of_nodup_append (h.nodup.of_map Call.id)
  exact hdisjoint (h.held call (h.released call hreleased)) hcall

/-- A call that is new. -/
theorem not_mem_of_calls (h : Inv budgetBytes s) {bytes : Nat} : ⟨s.calls, bytes⟩ ∉ s.released :=
  fun hreleased => Nat.lt_irrefl s.calls
    (h.known _ (List.mem_append_left _ (h.held _ (h.released _ hreleased))))

theorem acquire (h : Inv budgetBytes s) (bytes : Nat) :
    Inv budgetBytes (acquire budgetBytes bytes s) := by
  have hnew : ∀ call ∈ s.admitted ++ s.waiting, call.id ≠ s.calls := fun call hcall =>
    (h.known call hcall).ne
  rw [PageBytesBudget.acquire]
  dsimp only
  split
  · rename_i hfits
    have hheld : (s.admitted ++ [(⟨s.calls, bytes⟩ : Call)]).filter (fun call => call ∉ s.released)
        = s.held ++ [⟨s.calls, bytes⟩] := by
      rw [List.filter_append, State.held]
      simp [h.not_mem_of_calls]
    have hperm : (s.admitted ++ [(⟨s.calls, bytes⟩ : Call)] ++ s.waiting).Perm
        ((⟨s.calls, bytes⟩ : Call) :: (s.admitted ++ s.waiting)) := by
      rw [List.append_assoc]
      exact List.perm_middle
    constructor
    case counted =>
      simp only [State.held, hheld, bytesOf_append, bytesOf_cons, bytesOf_nil, h.counted,
        Int.add_zero]
    case capped =>
      simp only [State.held, hheld]
      exact Capped.concat (h.counted ▸ hfits)
    case nodup =>
      rw [(hperm.map Call.id).nodup_iff, List.map_cons, List.nodup_cons]
      refine ⟨fun hmem => ?_, h.nodup⟩
      obtain ⟨call, hcall, heq⟩ := List.mem_map.1 hmem
      exact hnew call hcall heq
    case known =>
      intro call hcall
      rcases List.mem_cons.1 (hperm.mem_iff.1 hcall) with rfl | hcall
      · exact Nat.lt_succ_self _
      · exact Nat.lt_succ_of_lt (h.known call hcall)
    case held => exact fun call hcall => List.mem_append_left _ (h.held call hcall)
    case released => exact h.released
    case settled =>
      intro waiter hwaiter
      exact not_fits_mono h.inFlight_nonneg (by dsimp only; omega) (h.settled waiter hwaiter)
  · rename_i hfits
    constructor
    case counted => exact h.counted
    case capped => exact h.capped
    case nodup =>
      rw [← List.append_assoc, List.map_append, List.nodup_append]
      refine ⟨h.nodup, List.nodup_singleton _, ?_⟩
      rintro id hid id' hid' rfl
      obtain ⟨call, hcall, rfl⟩ := List.mem_map.1 hid
      exact hnew call hcall (List.mem_singleton.1 hid')
    case known =>
      intro call hcall
      rw [← List.append_assoc] at hcall
      rcases List.mem_append.1 hcall with hcall | hcall
      · exact Nat.lt_succ_of_lt (h.known call hcall)
      · rw [List.mem_singleton.1 hcall]
        exact Nat.lt_succ_self _
    case held => exact h.held
    case released => exact h.released
    case settled =>
      intro waiter hwaiter
      rcases List.mem_append.1 hwaiter with hwaiter | hwaiter
      · exact h.settled waiter hwaiter
      · rw [List.mem_singleton.1 hwaiter]
        exact hfits

theorem resume (h : Inv budgetBytes s) (hcall : call ∈ s.admitted) :
    Inv budgetBytes { s with holders := call :: s.holders } :=
  { h with
    held := List.forall_mem_cons.2 ⟨hcall, h.held⟩
    released := fun other hother => List.mem_cons_of_mem _ (h.released other hother) }

/-- The call leaves those that are in flight. -/
theorem held_erase (h : Inv budgetBytes s) :
    s.admitted.filter (fun other => other ∉ call :: s.released) = s.held.erase call := by
  have hnodup : s.held.Nodup := ((h.nodup.of_map Call.id).of_append_left).filter _
  rw [hnodup.erase_eq_filter, State.held, List.filter_filter]
  refine List.filter_congr fun other _ => ?_
  by_cases heq : other = call <;> simp [heq]

theorem release (h : Inv budgetBytes s) (hcall : call ∈ s.holders) :
    Inv budgetBytes (release budgetBytes call s) := by
  rw [PageBytesBudget.release]
  split
  · exact h
  rename_i hnot
  have hmem : call ∈ s.held := List.mem_filter.2 ⟨h.held call hcall, by simpa using hnot⟩
  have hbytes : s.inFlight - call.bytes = bytesOf (s.held.erase call) := by
    rw [bytesOf_erase hmem, h.counted]
  have hperm := @admit_perm budgetBytes (s.inFlight - call.bytes) s.waiting
  have hcounted := @inFlight_letIn budgetBytes (s.inFlight - call.bytes) s.waiting
  have hsettled := @not_fits_of_mem_letIn budgetBytes (s.inFlight - call.bytes) s.waiting
    (hbytes ▸ bytesOf_nonneg _)
  have hcapped : Capped budgetBytes (s.held.erase call ++
      (letIn budgetBytes (s.inFlight - call.bytes) s.waiting).admitted) := by
    rw [hbytes]
    exact capped_letIn (h.capped.sublist List.erase_sublist (by rw [bytesOf_erase hmem]; omega))
  generalize letIn budgetBytes (s.inFlight - call.bytes) s.waiting = rest at *
  -- who is let in has not released anything
  have hheld : (s.admitted ++ rest.admitted).filter (fun other => other ∉ call :: s.released)
      = s.held.erase call ++ rest.admitted := by
    rw [List.filter_append, h.held_erase, List.filter_eq_self.2]
    intro other hother
    have hwaiting : other ∈ s.waiting := hperm.mem_iff.1 (List.mem_append_left _ hother)
    have hadmitted := List.disjoint_of_nodup_append (h.nodup.of_map Call.id)
    have hne : other ≠ call := by
      rintro rfl
      exact hadmitted (h.held other hcall) hwaiting
    simpa [hne] using h.not_mem_released hwaiting
  have hall : (s.admitted ++ rest.admitted ++ rest.waiting).Perm (s.admitted ++ s.waiting) := by
    rw [List.append_assoc]
    exact hperm.append_left _
  constructor
  case counted => simp only [State.held, hheld, bytesOf_append, hcounted, hbytes]
  case capped => simpa only [State.held, hheld] using hcapped
  case nodup => exact (hall.map Call.id).nodup_iff.2 h.nodup
  case known => exact fun other hother => h.known other (hall.mem_iff.1 hother)
  case held => exact fun other hother => List.mem_append_left _ (h.held other hother)
  case released => exact List.forall_mem_cons.2 ⟨hcall, h.released⟩
  case settled => exact hsettled

theorem step (h : Inv budgetBytes s) {a : Action} {s' : State}
    (hstep : step budgetBytes s a = some s') : Inv budgetBytes s' := by
  cases a with
  | acquire bytes =>
    cases hstep
    exact h.acquire bytes
  | resume call =>
    obtain ⟨hcall, hs⟩ := Option.ite_none_right_eq_some.1 hstep
    cases hs
    exact h.resume hcall
  | release call =>
    obtain ⟨hcall, hs⟩ := Option.ite_none_right_eq_some.1 hstep
    cases hs
    exact h.release hcall

/-- Nothing is in flight once all have released, and then everybody fits. -/
theorem sound (h : Inv budgetBytes s) : Sound budgetBytes s where
  __ := h
  once := by
    have hnodup := h.nodup
    rw [List.map_append] at hnodup
    exact hnodup.of_append_left
  progress hall := by
    have hheld : s.held = [] := List.filter_eq_nil_iff.2 fun call hcall => by
      simpa using hall call hcall
    have hzero : s.inFlight = 0 := by rw [h.counted, hheld, bytesOf_nil]
    cases hwaiting : s.waiting with
    | nil => rfl
    | cons waiter waiting =>
      have hnot := h.settled waiter (hwaiting ▸ List.mem_cons_self)
      exact absurd (fits_iff.2 (.inl hzero)) hnot

end Inv

/-- **The budget is kept.**  After any calls and releases in any order, what is in flight is counted
right and within the budget, but for one page that has any bytes; nobody is let in twice; and once
all have released nobody waits. -/
theorem budget_sound {budgetBytes : Int} {as : List Action} {s : State}
    (hrun : Run (step budgetBytes) anyStep State.init as s) : Sound budgetBytes s :=
  hrun.invariant_of (fun _ => Inv.sound) (fun _ _ _ hinv _ hstep => hinv.step hstep) Inv.init

/-- Three pages of two bytes each under a budget of four; the first is released twice. -/
theorem sound_of_three_pages :
    Sound 4 ⟨4, [], 3, [⟨0, 2⟩, ⟨1, 2⟩, ⟨2, 2⟩], [⟨0, 2⟩], [⟨0, 2⟩]⟩ := by
  have hrun : Run (step 4) anyStep State.init [.acquire 2, .acquire 2, .acquire 2,
      .resume ⟨0, 2⟩, .release ⟨0, 2⟩, .release ⟨0, 2⟩]
      ⟨4, [], 3, [⟨0, 2⟩, ⟨1, 2⟩, ⟨2, 2⟩], [⟨0, 2⟩], [⟨0, 2⟩]⟩ := Run.of_exec rfl
  exact budget_sound hrun

/-- A page of no bytes is in flight, and one that exceeds the budget is let in next to it. -/
theorem not_capped_of_empty_page :
    ¬ ∀ (budgetBytes : Int) (as : List Action) (s : State),
      Run (step budgetBytes) anyStep State.init as s →
        s.inFlight ≤ budgetBytes ∨ s.held.length ≤ 1 := by
  intro h
  have hover := h 4 [.acquire 0, .acquire 5] ⟨5, [], 2, [⟨0, 0⟩, ⟨1, 5⟩], [], []⟩ (Run.of_exec rfl)
  revert hover
  decide

end PageBytesBudget
end Pkc

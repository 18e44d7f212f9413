import Pkc.Challenges.Resolve
import Pkc.Library.Runs

/-!
# How often a challenge is asked

The exchange runs a `while (true)` loop twice: at the time of the request over all challenges, and
when the answers are there over the deferred ones.  Here both are taken apart into single steps, and
what `getChallenge` and `verify` give is an event, so a challenge may answer whatever it likes and
nothing is said about how the exclude lists refer to each other.

* `Loop.next` is what a loop does next: it goes on, it calls a challenge, or it ends.
* `step` is the exchange.  It keeps a list of the calls and what was known when each was made.
* `Loop.rank` bounds how far a loop is from its end: every challenge it decides pays for another
  pass.
* `Scheduled` is what every step keeps; `Loop.seen` is the part that the break of a cycle needs: a
  pass without progress has found every undecided challenge to be skipped.
* `run_of_getChallengeVerification` makes a run of every exchange that comes to its end, so that
  `exchange_is_scheduled`.
* `scheduled_run` says that the exchange ends and what it calls.
-/

set_option autoImplicit false

namespace Pkc
namespace Challenges
namespace Scheduling

open Runs

/-! ## The loops, one step at a time -/

structure Loop where
  /-- The rest is deferred when a challenge is pending: at the time of the request. -/
  deferOnPending : Bool
  /-- What a pass looks at. -/
  indices : List Nat
  progress : Progress
  /-- What the pass has still to look at. -/
  rest : List Nat
  /-- The pass has decided a challenge. -/
  progressed : Bool

inductive Move
  | goesOn (l : Loop)
  | calls (i : Nat)
  | ends (s : Progress)

namespace Loop

variable (input : Input) (l : Loop)

def start (deferOnPending : Bool) (indices : List Nat) (s : Progress) : Loop :=
  ⟨deferOnPending, indices, s, indices, false⟩

def next : Move :=
  match l.rest with
  | i :: rest =>
    if l.progress.decided i then .goesOn { l with rest := rest }
    else
      match evaluatePhase2Exclusion input l.progress i with
      | .skip => .goesOn { l with rest := rest }
      | .exclude =>
        .goesOn { l with progress := l.progress.setDecided i, rest := rest, progressed := true }
      | .defer =>
        .goesOn { l with progress := l.progress.setDeferred i, rest := rest, progressed := true }
      | .ready => .calls i
  | [] =>
    if l.progressed then .goesOn { l with rest := l.indices, progressed := false }
    else
      match l.progress.firstUndecided input.challengeCount with
      | none => .ends l.progress
      | some i =>
        if l.deferOnPending &&
            (List.range input.challengeCount).any fun j => isPending (l.progress.results j) then
          .ends (l.progress.deferRemaining input.challengeCount)
        else if anyDecidedFailureIsFinal input l.progress then
          .ends (l.progress.deferRemaining input.challengeCount)
        else .calls i

/-- A challenge that was called has a result.  The break of a cycle has no pass to go on with, and
begins a new one. -/
def record (i : Nat) (outcome : Outcome) : Loop :=
  { l with
    progress := l.progress.setResult i outcome
    rest := l.rest.tail
    progressed := true }

end Loop

/-! ## The exchange -/

/-- A call of `getChallenge`, and what was known when it was made. -/
structure Call where
  index : Nat
  progress : Progress

inductive Phase
  | looping (l : Loop)
  | calling (i : Nat) (l : Loop)
  | awaitingAnswers (s : Progress) (pendingChallenges : List (Nat × Challenge))
  /-- With the progress the verification is read off, if it did not throw. -/
  | ended (final : Option Progress)

structure Exchange where
  calls : List Call
  phase : Phase

inductive Event
  | goOn
  /-- What `getChallenge` gave, if it did not throw. -/
  | outcome (outcome : Option Outcome)
  /-- What the `verify` of each challenge gave, if there are answers and none of them threw. -/
  | verified (results : Option (Nat → ChallengeResult))

/-- The results when the challenges of the list have been verified. -/
def hydrate (s : Progress) (pendingChallenges : List (Nat × Challenge))
    (verified : Nat → ChallengeResult) : Results := fun i =>
  if i ∈ pendingChallenges.map Prod.fst then some (.result (verified i)) else s.results i

section Step

variable (input : Input)

def start : Exchange :=
  ⟨[], .looping (.start true (List.range input.challengeCount) (phase1 input))⟩

/-- What follows the loop at the time of the request. -/
def afterRequest (s : Progress) : Phase :=
  match classify input s (List.range input.challengeCount) {} with
  | .error _ => .ended none
  | .ok c =>
    if c.challengeErrors = [] ∧ c.pendingChallenges ≠ [] then
      .awaitingAnswers s c.pendingChallenges
    else .ended (some s)

/-- What follows the loop when the answers are there. -/
def afterAnswers (s : Progress) : Phase :=
  match classify input s (List.range input.challengeCount) {} with
  | .error _ => .ended none
  | .ok _ => .ended (some s)

/-- The loop over the deferred challenges. -/
def answersLoop (s : Progress) (results : Results) : Loop :=
  .start false ((List.range input.challengeCount).filter s.deferred)
    (answeredProgress input ((List.range input.challengeCount).filter s.deferred) results)

def step (e : Exchange) : Event → Option Exchange
  | .goOn =>
    match e.phase with
    | .looping l =>
      match l.next input with
      | .goesOn l' => some { e with phase := .looping l' }
      | .calls i => some ⟨e.calls ++ [⟨i, l.progress⟩], .calling i l⟩
      | .ends s =>
        some { e with phase := if l.deferOnPending then afterRequest input s else afterAnswers input s }
    | _ => none
  | .outcome outcome =>
    match e.phase with
    | .calling i l =>
      match outcome with
      | none => some { e with phase := .ended none }
      | some outcome => some { e with phase := .looping (l.record i outcome) }
    | _ => none
  | .verified results =>
    match e.phase with
    | .awaitingAnswers s pendingChallenges =>
      match results with
      | none => some { e with phase := .ended none }
      | some verified =>
        some { e with phase := .looping (answersLoop input s (hydrate s pendingChallenges verified)) }
    | _ => none

end Step

/-! ## What a loop keeps -/

section Loops

variable {input : Input} {s : Progress} {l : Loop} {i : Nat}

/-- What is known of the progress of a loop, at the time of the request and when the answers are
there. -/
structure Tidy (input : Input) (called : Nat → Prop) (s : Progress) : Prop where
  unrun : ∀ i, s.decided i = false → s.results i = none
  bounded : ∀ i, input.challengeCount ≤ i → s.results i = none
  excluded : ∀ i, (input.excludes i).shouldExclude = true → s.decided i = true
  called : ∀ i, called i → i < input.challengeCount ∧ s.decided i = true

/-- At the time of the request a deferred challenge was neither excluded nor called. -/
def Untouched (input : Input) (called : Nat → Prop) (s : Progress) : Prop :=
  ∀ i, s.deferred i = true → s.decided i = true ∧ s.results i = none ∧
    (input.excludes i).shouldExclude = false ∧ ¬ called i

/-- A loop that looks at the challenges there are, and at every undecided one. -/
structure LoopOk (input : Input) (called : Nat → Prop) (l : Loop) : Prop where
  tidy : Tidy input called l.progress
  untouched : l.deferOnPending = true → Untouched input called l.progress
  inRange : ∀ i ∈ l.indices, i < input.challengeCount
  rest : ∀ i ∈ l.rest, i ∈ l.indices
  shorter : l.rest.length ≤ l.indices.length
  bounded : l.indices.length ≤ input.challengeCount
  covers : ∀ i < input.challengeCount, l.progress.decided i = false → i ∈ l.indices
  /-- Until it makes progress, a pass has left what it looked at as it was. -/
  seen : l.progressed = false → ∀ i ∈ l.indices, i ∉ l.rest →
    l.progress.decided i = true ∨ evaluatePhase2Exclusion input l.progress i = .skip

/-- An item whose challenges all succeeded decides the challenge. -/
theorem evaluateItems_eq_exclude {items : List Exclude} {evaluable anyDefer : Bool} {item : Exclude}
    (hmem : item ∈ items) (hdeps : item.deps ≠ [])
    (hall : ∀ j ∈ item.deps, s.decided j = true ∧ isSuccess (s.results j) = true) :
    evaluateItems input s i items evaluable anyDefer = .exclude := by
  induction items generalizing evaluable anyDefer with
  | nil => cases hmem
  | cons first items ih =>
    rcases List.mem_cons.1 hmem with rfl | hmem
    · have hdecided : (item.deps.any fun j => !s.decided j) = false := by
        rw [List.any_eq_false]
        intro j hj
        simp [(hall j hj).1]
      have hresults :
          (item.deps.any fun j => !(isSuccess (s.results j) || isPending (s.results j))) = false := by
        rw [List.any_eq_false]
        intro j hj
        simp [(hall j hj).2]
      have hpending : item.deps.filter (fun j => isPending (s.results j)) = [] := by
        rw [List.filter_eq_nil_iff]
        intro j hj
        simp [isPending_of_isSuccess (hall j hj).2]
      rw [evaluateItems, if_neg hdeps, hdecided, hresults, hpending]
      rfl
    · have hrest : ∀ {evaluable anyDefer : Bool},
          evaluateItems input s i items evaluable anyDefer = .exclude := ih hmem
      rw [evaluateItems]
      split
      · exact hrest
      · split
        · exact hrest
        · split
          · exact hrest
          · split
            · rfl
            · split
              · exact hrest
              · exact hrest

/-- **What is called is not excused.** -/
theorem Tidy.not_excused {called : Nat → Prop} (h : Tidy input called s)
    (hdecision : evaluatePhase2Exclusion input s i ≠ .exclude) : ¬ Excused input s.results i := by
  rintro ⟨item, hmem, hdeps, hall⟩
  refine hdecision (evaluateItems_eq_exclude hmem hdeps fun j hj => ⟨?_, hall j hj⟩)
  rw [← Bool.not_eq_false]
  intro hundecided
  have hsuccess := hall j hj
  rw [h.unrun j hundecided] at hsuccess
  cases hsuccess

/-! ### How far a loop is from its end -/

/-- Every challenge that is still to be decided pays for a pass. -/
def Loop.rank (input : Input) (l : Loop) : Nat :=
  (undecided input l.progress).card * (input.challengeCount + 4) + l.rest.length +
    if l.progressed then input.challengeCount + 2 else 0

/-- What no loop over the challenges exceeds. -/
def Loop.maxRank (input : Input) : Nat :=
  input.challengeCount * (input.challengeCount + 4) + input.challengeCount

theorem rank_start_le {deferOnPending : Bool} {indices : List Nat}
    (hlength : indices.length ≤ input.challengeCount) :
    (Loop.start deferOnPending indices s).rank input ≤ Loop.maxRank input := by
  have hcard : (undecided input s).card ≤ input.challengeCount :=
    Nat.le_of_lt_succ card_undecided_lt
  have hmul := Nat.mul_le_mul_right (input.challengeCount + 4) hcard
  simp only [Loop.rank, Loop.start, Loop.maxRank]
  simp
  omega

/-- A loop whose progress has decided one more challenge is closer to its end. -/
theorem rank_lt_of_decided {l l' : Loop} (hi : i ∈ undecided input l.progress)
    (hdecided : l'.progress.decided = Function.update l.progress.decided i true)
    (hrest : l'.rest.length ≤ l.rest.length) : l'.rank input + 2 ≤ l.rank input := by
  have hcard : (undecided input l'.progress).card + 1 = (undecided input l.progress).card := by
    rw [undecided_update hdecided, Finset.card_erase_of_mem hi]
    have hpos := Finset.card_pos.2 ⟨i, hi⟩
    omega
  rw [Loop.rank, Loop.rank, ← hcard, Nat.succ_mul]
  split <;> split <;> omega

/-! ### What a loop does next -/

theorem Tidy.setDecided {called : Nat → Prop} (h : Tidy input called s) :
    Tidy input called (s.setDecided i) := by
  refine ⟨fun j hj => ?_, h.bounded, fun j hj => ?_, fun j hj => ?_⟩
  · rw [Progress.setDecided_decided] at hj
    split at hj
    · cases hj
    · exact h.unrun j hj
  · simp [h.excluded j hj]
  · exact ⟨(h.called j hj).1, by simp [h.called j hj]⟩

theorem Tidy.setDeferred {called : Nat → Prop} (h : Tidy input called s) :
    Tidy input called (s.setDeferred i) := by
  refine ⟨fun j hj => ?_, h.bounded, fun j hj => ?_, fun j hj => ?_⟩
  · rw [Progress.setDeferred_decided] at hj
    split at hj
    · cases hj
    · exact h.unrun j hj
  · simp [h.excluded j hj]
  · exact ⟨(h.called j hj).1, by simp [h.called j hj]⟩

theorem Tidy.setResult {called : Nat → Prop} {outcome : Outcome} (h : Tidy input called s)
    (hi : i < input.challengeCount) :
    Tidy input (fun j => called j ∨ j = i) (s.setResult i outcome) := by
  refine ⟨fun j hj => ?_, fun j hj => ?_, fun j hj => ?_, fun j hj => ?_⟩
  · rw [Progress.setResult_decided] at hj
    split at hj
    · cases hj
    · rename_i hne
      rw [Progress.setResult_results, if_neg hne]
      exact h.unrun j hj
  · have hne : j ≠ i := by omega
    rw [Progress.setResult_results, if_neg hne]
    exact h.bounded j hj
  · simp [h.excluded j hj]
  · rcases hj with hj | rfl
    · exact ⟨(h.called j hj).1, by simp [h.called j hj]⟩
    · exact ⟨hi, by simp⟩

theorem Tidy.deferRemaining {called : Nat → Prop} (h : Tidy input called s) :
    Tidy input called (s.deferRemaining input.challengeCount) := by
  refine ⟨fun j hj => ?_, h.bounded, fun j hj => ?_, fun j hj => ?_⟩
  · rw [Progress.deferRemaining_decided, Bool.or_eq_false_iff] at hj
    exact h.unrun j hj.1
  · simp [h.excluded j hj]
  · exact ⟨(h.called j hj).1, by simp [h.called j hj]⟩

/-- A challenge that is not decided was neither excluded nor called. -/
theorem Tidy.of_undecided {called : Nat → Prop} (h : Tidy input called s)
    (hundecided : s.decided i = false) :
    s.results i = none ∧ (input.excludes i).shouldExclude = false ∧ ¬ called i := by
  refine ⟨h.unrun i hundecided, ?_, fun hcalled => ?_⟩
  · rw [← Bool.not_eq_true]
    intro hexcluded
    rw [h.excluded i hexcluded] at hundecided
    cases hundecided
  · rw [(h.called i hcalled).2] at hundecided
    cases hundecided

theorem Untouched.setDecided {called : Nat → Prop} (h : Untouched input called s) :
    Untouched input called (s.setDecided i) := by
  intro j hj
  obtain ⟨hdecided, huntouched⟩ := h j hj
  exact ⟨by simp [hdecided], huntouched⟩

theorem Untouched.setDeferred {called : Nat → Prop} (h : Untouched input called s)
    (htidy : Tidy input called s) (hundecided : s.decided i = false) :
    Untouched input called (s.setDeferred i) := by
  intro j hj
  rw [Progress.setDeferred_deferred] at hj
  split at hj
  · rename_i heq
    subst heq
    exact ⟨by simp, htidy.of_undecided hundecided⟩
  · rename_i hne
    obtain ⟨hdecided, huntouched⟩ := h j hj
    exact ⟨by simp [hdecided], huntouched⟩

theorem Untouched.setResult {called : Nat → Prop} {outcome : Outcome}
    (h : Untouched input called s) (hundecided : s.decided i = false) :
    Untouched input (fun j => called j ∨ j = i) (s.setResult i outcome) := by
  intro j hj
  obtain ⟨hdecided, hresult, hexcluded, hcalled⟩ := h j hj
  have hne : j ≠ i := by
    rintro rfl
    rw [hdecided] at hundecided
    cases hundecided
  exact ⟨by simp [hdecided], by simp [hne, hresult], hexcluded, fun hor => hor.elim hcalled hne⟩

theorem Untouched.deferRemaining {called : Nat → Prop} (h : Untouched input called s)
    (htidy : Tidy input called s) :
    Untouched input called (s.deferRemaining input.challengeCount) := by
  intro j hj
  rw [Progress.deferRemaining_deferred, Bool.or_eq_true, Bool.and_eq_true, Bool.not_eq_true',
    decide_eq_true_eq] at hj
  rcases hj with hj | ⟨hundecided, hlt⟩
  · obtain ⟨hdecided, huntouched⟩ := h j hj
    exact ⟨by simp [hdecided], huntouched⟩
  · exact ⟨by simp [hlt], htidy.of_undecided hundecided⟩

section Next

variable {called : Nat → Prop} {rest : List Nat}

/-- A pass goes on behind a challenge, and has seen it if that changed nothing. -/
theorem LoopOk.skip (h : LoopOk input called l) (hrest : l.rest = i :: rest)
    (hseen : l.progress.decided i = true ∨ evaluatePhase2Exclusion input l.progress i = .skip) :
    LoopOk input called { l with rest := rest } :=
  { h with
    rest := fun j hj => h.rest j (hrest ▸ List.mem_cons_of_mem i hj)
    shorter := by
      have hshorter := h.shorter
      rw [hrest, List.length_cons] at hshorter
      exact Nat.le_of_succ_le hshorter
    seen := fun hprogressed j hj hnot => by
      by_cases heq : j = i
      · exact heq ▸ hseen
      · exact h.seen hprogressed j hj (by simp [hrest, heq, hnot]) }

/-- A pass decides a challenge and goes on behind it. -/
theorem LoopOk.decides {called' : Nat → Prop} {s : Progress} {rest : List Nat}
    (h : LoopOk input called l) (hdecided : s.decided = Function.update l.progress.decided i true)
    (htidy : Tidy input called' s)
    (huntouched : l.deferOnPending = true → Untouched input called' s)
    (hrest : rest = l.rest.tail) :
    LoopOk input called' { l with progress := s, rest := rest, progressed := true } :=
  { h with
    tidy := htidy
    untouched := huntouched
    rest := fun j hj => h.rest j (List.mem_of_mem_tail (hrest ▸ hj))
    shorter := by
      have hshorter := h.shorter
      subst hrest
      simp
      omega
    covers := fun j hj hundecided => by
      refine h.covers j hj ?_
      rw [hdecided] at hundecided
      by_cases heq : j = i
      · subst heq
        simp at hundecided
      · simpa [heq] using hundecided
    seen := nofun }

theorem LoopOk.mem_undecided (h : LoopOk input called l) (hrest : l.rest = i :: rest)
    (hundecided : l.progress.decided i = false) : i ∈ undecided input l.progress :=
  Challenges.mem_undecided.2
    ⟨h.inRange i (h.rest i (by rw [hrest]; exact List.mem_cons_self)), hundecided⟩

/-- A loop that goes on is closer to its end. -/
theorem LoopOk.goesOn {l' : Loop} (h : LoopOk input called l) (hnext : l.next input = .goesOn l') :
    LoopOk input called l' ∧ l'.rank input < l.rank input ∧
      l'.deferOnPending = l.deferOnPending := by
  rw [Loop.next] at hnext
  split at hnext
  · rename_i i rest hrest
    have hskip : ({ l with rest := rest } : Loop).rank input < l.rank input := by
      simp only [Loop.rank, hrest, List.length_cons]
      omega
    have htail : rest = l.rest.tail := by rw [hrest, List.tail_cons]
    have hlength : rest.length ≤ l.rest.length := by simp [hrest]
    split at hnext
    · rename_i hdecided
      cases hnext
      exact ⟨h.skip hrest (Or.inl hdecided), hskip, rfl⟩
    · rename_i hdecided
      rw [Bool.not_eq_true] at hdecided
      have hmem := h.mem_undecided hrest hdecided
      split at hnext
      · rename_i hdecision
        cases hnext
        exact ⟨h.skip hrest (Or.inr hdecision), hskip, rfl⟩
      · cases hnext
        refine ⟨h.decides rfl h.tidy.setDecided
          (fun hdefer => (h.untouched hdefer).setDecided) htail, ?_, rfl⟩
        exact Nat.lt_of_succ_le (Nat.le_of_succ_le (rank_lt_of_decided hmem rfl hlength))
      · cases hnext
        refine ⟨h.decides rfl h.tidy.setDeferred
          (fun hdefer => (h.untouched hdefer).setDeferred h.tidy hdecided) htail, ?_, rfl⟩
        exact Nat.lt_of_succ_le (Nat.le_of_succ_le (rank_lt_of_decided hmem rfl hlength))
      · cases hnext
  · rename_i hrest
    split at hnext
    · -- a pass that made progress is followed by another one
      rename_i hprogressed
      cases hnext
      refine ⟨{ h with
        rest := fun j hj => hj
        shorter := Nat.le_refl _
        seen := fun _ j hj hnot => absurd hj hnot }, ?_, rfl⟩
      have hbounded := h.bounded
      simp only [Loop.rank, hrest, hprogressed, if_true, List.length_nil]
      simp
      omega
    · split at hnext
      · cases hnext
      · split at hnext
        · cases hnext
        · split at hnext <;> cases hnext

/-- **A call is of a challenge that is not decided and not excused.** -/
theorem LoopOk.calls (h : LoopOk input called l) (hnext : l.next input = .calls i) :
    i ∈ undecided input l.progress ∧ ¬ Excused input l.progress.results i := by
  rw [Loop.next] at hnext
  split at hnext
  · rename_i i' rest hrest
    split at hnext
    · cases hnext
    · rename_i hdecided
      rw [Bool.not_eq_true] at hdecided
      split at hnext
      · cases hnext
      · cases hnext
      · cases hnext
      · rename_i hready
        cases hnext
        refine ⟨h.mem_undecided hrest hdecided, h.tidy.not_excused ?_⟩
        rw [hready]
        nofun
  · rename_i hrest
    split at hnext
    · cases hnext
    · rename_i hprogressed
      split at hnext
      · cases hnext
      · rename_i i' hfirst
        split at hnext
        · cases hnext
        · split at hnext
          · cases hnext
          · -- the break of a cycle: the pass has found the challenge to be skipped
            cases hnext
            have hmem := mem_of_firstUndecided hfirst
            obtain ⟨hlt, hundecided⟩ := Challenges.mem_undecided.1 hmem
            have hseen := h.seen (Bool.of_not_eq_true hprogressed) i (h.covers i hlt hundecided)
              (by rw [hrest]; exact List.not_mem_nil)
            refine ⟨hmem, h.tidy.not_excused ?_⟩
            rcases hseen with hdecided | hskip
            · rw [hundecided] at hdecided
              cases hdecided
            · rw [hskip]
              nofun

theorem LoopOk.record (outcome : Outcome) (h : LoopOk input called l)
    (hi : i ∈ undecided input l.progress) :
    LoopOk input (fun j => called j ∨ j = i) (l.record i outcome) ∧
      (l.record i outcome).rank input + 2 ≤ l.rank input := by
  obtain ⟨hlt, hundecided⟩ := Challenges.mem_undecided.1 hi
  refine ⟨h.decides rfl (h.tidy.setResult hlt)
    (fun hdefer => (h.untouched hdefer).setResult hundecided) rfl, ?_⟩
  exact rank_lt_of_decided hi rfl (by simp [Loop.record])

theorem LoopOk.ends {s : Progress} (h : LoopOk input called l) (hnext : l.next input = .ends s) :
    Tidy input called s ∧ (l.deferOnPending = true → Untouched input called s) := by
  have hdeferred : Tidy input called (l.progress.deferRemaining input.challengeCount) ∧
      (l.deferOnPending = true →
        Untouched input called (l.progress.deferRemaining input.challengeCount)) :=
    ⟨h.tidy.deferRemaining, fun hdefer => (h.untouched hdefer).deferRemaining h.tidy⟩
  rw [Loop.next] at hnext
  split at hnext
  · split at hnext
    · cases hnext
    · split at hnext <;> cases hnext
  · split at hnext
    · cases hnext
    · split at hnext
      · cases hnext
        exact ⟨h.tidy, h.untouched⟩
      · split at hnext
        · cases hnext
          exact hdeferred
        · split at hnext
          · cases hnext
            exact hdeferred
          · cases hnext

end Next

end Loops

/-! ## What the exchange keeps -/

/-- The challenge was called. -/
def Called (calls : List Call) (i : Nat) : Prop := i ∈ calls.map Call.index

def PhaseOk (input : Input) (calls : List Call) : Phase → Prop
  | .looping l => LoopOk input (Called calls) l
  | .calling i l => i ∈ undecided input l.progress ∧
      ∃ before, calls = before ++ [⟨i, l.progress⟩] ∧ LoopOk input (Called before) l
  | .awaitingAnswers s pendingChallenges => Tidy input (Called calls) s ∧
      Untouched input (Called calls) s ∧
      ∀ i ∈ pendingChallenges.map Prod.fst, isPending (s.results i) = true
  | .ended _ => True

/-- The request does not excuse the challenge, and neither do the results that were there when it
was called. -/
def Call.Due (input : Input) (call : Call) : Prop :=
  (input.excludes call.index).shouldExclude = false ∧
    ¬ Excused input call.progress.results call.index

structure Scheduled (input : Input) (e : Exchange) : Prop where
  once : (e.calls.map Call.index).Nodup
  due : ∀ call ∈ e.calls, call.Due input
  phase : PhaseOk input e.calls e.phase

/-- How far an exchange is from its end. -/
def Phase.rank (input : Input) : Phase → Nat
  | .looping l => l.rank input + 1 + if l.deferOnPending then Loop.maxRank input + 2 else 0
  | .calling _ l => l.rank input + if l.deferOnPending then Loop.maxRank input + 2 else 0
  | .awaitingAnswers _ _ => Loop.maxRank input + 2
  | .ended _ => 0

section Exchange

variable {input : Input} {e e' : Exchange} {s : Progress}

theorem called_append {calls : List Call} {call : Call} {i : Nat} :
    Called (calls ++ [call]) i ↔ Called calls i ∨ i = call.index := by
  simp [Called]

theorem Tidy.congr {called called' : Nat → Prop} (h : Tidy input called s)
    (himp : ∀ i, called' i → called i) : Tidy input called' s :=
  { h with called := fun i hi => h.called i (himp i hi) }

theorem LoopOk.congr {called called' : Nat → Prop} {l : Loop} (h : LoopOk input called l)
    (hiff : ∀ i, called' i ↔ called i) : LoopOk input called' l :=
  { h with
    tidy := h.tidy.congr fun i => (hiff i).1
    untouched := fun hdefer i hi => by
      obtain ⟨hdecided, hresult, hexcluded, hcalled⟩ := h.untouched hdefer i hi
      exact ⟨hdecided, hresult, hexcluded, fun hi => hcalled ((hiff i).1 hi)⟩ }

theorem scheduled_start : Scheduled input (start input) where
  once := List.nodup_nil
  due _ h := nomatch h
  phase :=
    { tidy := ⟨fun _ _ => rfl, fun _ _ => rfl, fun _ h => h, fun _ h => nomatch h⟩
      untouched := fun _ _ h => nomatch h
      inRange := fun i hi => List.mem_range.1 hi
      rest := fun _ hi => hi
      shorter := Nat.le_refl _
      bounded := by simp [Loop.start]
      covers := fun i hi _ => List.mem_range.2 hi
      seen := fun _ i hi hnot => absurd hi hnot }

/-- What is known when the answers are there. -/
theorem loopOk_answersLoop {called : Nat → Prop} {pendingChallenges : List (Nat × Challenge)}
    {v : Nat → ChallengeResult} (htidy : Tidy input called s)
    (huntouched : Untouched input called s)
    (hpending : ∀ i ∈ pendingChallenges.map Prod.fst, isPending (s.results i) = true) :
    LoopOk input called (answersLoop input s (hydrate s pendingChallenges v)) := by
  have hkept : ∀ i, s.results i = none → hydrate s pendingChallenges v i = none := by
    intro i hnone
    rw [hydrate, if_neg, hnone]
    intro hmem
    have hpend := hpending i hmem
    rw [hnone] at hpend
    cases hpend
  have hdecided : ∀ i, i < input.challengeCount →
    (input.excludes i).shouldExclude = true ∨ called i →
      (answeredProgress input ((List.range input.challengeCount).filter s.deferred)
        (hydrate s pendingChallenges v)).decided i = true := by
    intro i hlt hor
    have hdeferred : s.deferred i = false := by
      rw [← Bool.not_eq_true]
      intro hdeferred
      obtain ⟨-, -, hexcluded, hcalled⟩ := huntouched i hdeferred
      rcases hor with h | h
      · rw [hexcluded] at h
        cases h
      · exact hcalled h
    simp [answeredProgress, hlt, hdeferred]
  have hundecided : ∀ i, i < input.challengeCount →
      (answeredProgress input ((List.range input.challengeCount).filter s.deferred)
        (hydrate s pendingChallenges v)).decided i = false → s.deferred i = true := by
    intro i hlt hi
    simpa [answeredProgress, hlt] using hi
  refine
    { tidy := ⟨fun i hi => hkept i ?_, fun i hi => hkept i (htidy.bounded i hi),
        fun i hi => hdecided i (lt_of_excludes hi) (Or.inl hi),
        fun i hi => ⟨(htidy.called i hi).1, hdecided i (htidy.called i hi).1 (Or.inr hi)⟩⟩
      untouched := (by rintro ⟨⟩)
      inRange := fun i hi => List.mem_range.1 (List.mem_filter.1 hi).1
      rest := fun _ hi => hi
      shorter := Nat.le_refl _
      bounded := ?_
      covers := fun i hlt hi =>
        List.mem_filter.2 ⟨List.mem_range.2 hlt, hundecided i hlt hi⟩
      seen := fun _ i hi hmem => absurd hi hmem }
  · rcases Nat.lt_or_ge i input.challengeCount with hlt | hge
    · exact (huntouched i (hundecided i hlt hi)).2.1
    · exact htidy.bounded i hge
  · exact (List.length_filter_le _ _).trans (List.length_range ..).le

theorem pendingChallenges_of_classify {c : Classification}
    (h : classify input s (List.range input.challengeCount) {} = .ok c) :
    ∀ i ∈ c.pendingChallenges.map Prod.fst, isPending (s.results i) = true := by
  intro i hi
  have heq := (classify_eq h).2.1
  rw [List.map_nil, List.nil_append] at heq
  rw [heq, List.mem_filter, Bool.and_eq_true] at hi
  exact hi.2.2

theorem afterRequest_ok {calls : List Call} (htidy : Tidy input (Called calls) s)
    (huntouched : Untouched input (Called calls) s) :
    PhaseOk input calls (afterRequest input s) ∧
      (afterRequest input s).rank input ≤ Loop.maxRank input + 2 := by
  rw [afterRequest]
  split
  · exact ⟨trivial, Nat.zero_le _⟩
  · rename_i c hclassify
    split
    · exact ⟨⟨htidy, huntouched, pendingChallenges_of_classify hclassify⟩, Nat.le_refl _⟩
    · exact ⟨trivial, Nat.zero_le _⟩

theorem afterAnswers_eq : ∃ final, afterAnswers input s = .ended final := by
  rw [afterAnswers]
  split
  · exact ⟨none, rfl⟩
  · exact ⟨some s, rfl⟩

/-- **One step.**  It keeps the invariant and brings the exchange closer to its end. -/
theorem Scheduled.step {event : Event} (h : Scheduled input e)
    (hstep : step input e event = some e') :
    Scheduled input e' ∧ e'.phase.rank input < e.phase.rank input := by
  obtain ⟨calls, phase⟩ := e
  have hphase := h.phase
  cases event with
  | goOn =>
    simp only [Scheduling.step] at hstep
    split at hstep
    · rename_i l
      split at hstep <;> cases hstep
      · rename_i l' hnext
        obtain ⟨hok, hrank, hdefer⟩ := LoopOk.goesOn hphase hnext
        refine ⟨⟨h.once, h.due, hok⟩, ?_⟩
        simp only [Phase.rank, hdefer]
        omega
      · rename_i i hnext
        obtain ⟨hmem, hexcused⟩ := LoopOk.calls hphase hnext
        obtain ⟨-, hexcluded, hcalled⟩ :=
          hphase.tidy.of_undecided (Challenges.mem_undecided.1 hmem).2
        refine ⟨⟨?_, fun call hcall => ?_, hmem, calls, rfl, hphase⟩, ?_⟩
        · rw [List.map_append, List.nodup_append]
          refine ⟨h.once, List.nodup_singleton _, fun j hj k hk heq => hcalled ?_⟩
          have hji : j = i := heq.trans (by rw [List.mem_singleton.1 hk])
          exact hji ▸ hj
        · rcases List.mem_append.1 hcall with hcall | hcall
          · exact h.due call hcall
          · rw [List.mem_singleton.1 hcall]
            exact ⟨hexcluded, hexcused⟩
        · simp only [Phase.rank]
          omega
      · rename_i s hnext
        obtain ⟨htidy, huntouched⟩ := LoopOk.ends hphase hnext
        cases hdefer : l.deferOnPending with
        | true =>
          obtain ⟨hok, hrank⟩ := afterRequest_ok htidy (huntouched hdefer)
          refine ⟨⟨h.once, h.due, hok⟩, ?_⟩
          have hlooping : (Phase.looping l).rank input =
              l.rank input + 1 + (Loop.maxRank input + 2) := by simp [Phase.rank, hdefer]
          simp only [if_true, hlooping]
          omega
        | false =>
          obtain ⟨final, hended⟩ : ∃ final, afterAnswers input s = .ended final := afterAnswers_eq
          refine ⟨⟨h.once, h.due, ?_⟩, ?_⟩
          · simp [hended, PhaseOk]
          · simp [hended, Phase.rank]
    · cases hstep
  | outcome outcome =>
    simp only [Scheduling.step] at hstep
    split at hstep
    · rename_i i l
      obtain ⟨hmem, before, rfl, hloop⟩ := hphase
      split at hstep <;> cases hstep
      · obtain ⟨-, hrank⟩ := hloop.record (.pending ⟨"", "", none⟩) hmem
        refine ⟨⟨h.once, h.due, trivial⟩, ?_⟩
        simp only [Phase.rank]
        omega
      · rename_i outcome
        obtain ⟨hok, hrank⟩ := hloop.record outcome hmem
        refine ⟨⟨h.once, h.due, hok.congr fun j => called_append⟩, ?_⟩
        have hdefer : (l.record i outcome).deferOnPending = l.deferOnPending := rfl
        simp only [Phase.rank, hdefer]
        omega
    · cases hstep
  | verified results =>
    simp only [Scheduling.step] at hstep
    split at hstep
    · rename_i s pendingChallenges
      obtain ⟨htidy, huntouched, hpending⟩ := hphase
      split at hstep <;> cases hstep
      · exact ⟨⟨h.once, h.due, trivial⟩, Nat.succ_pos _⟩
      · rename_i verified
        have hok := loopOk_answersLoop (v := verified) htidy huntouched hpending
        refine ⟨⟨h.once, h.due, hok⟩, ?_⟩
        have hrank : (answersLoop input s (hydrate s pendingChallenges verified)).rank input ≤
            Loop.maxRank input := rank_start_le hok.bounded
        have hdefer : (answersLoop input s (hydrate s pendingChallenges verified)).deferOnPending =
            false := rfl
        simp only [Phase.rank, hdefer]
        simp
        omega
    · cases hstep

/-- **Every run.**  Each of its steps is one of the finitely many the exchange has. -/
theorem Scheduled.run {events : List Event} (hrun : Run (Scheduling.step input) anyStep e events e')
    (h : Scheduled input e) :
    Scheduled input e' ∧ events.length + e'.phase.rank input ≤ e.phase.rank input := by
  induction hrun with
  | nil => exact ⟨h, by simp⟩
  | cons _ hstep _ ih =>
    obtain ⟨hnext, hrank⟩ := h.step hstep
    obtain ⟨hlast, hlength⟩ := ih hnext
    refine ⟨hlast, ?_⟩
    rw [List.length_cons]
    omega

/-- An exchange that has not come to its end goes on, whatever it is told. -/
theorem exists_step (hphase : ∀ final, e.phase ≠ .ended final) :
    ∃ event, (step input e event).isSome = true := by
  obtain ⟨calls, phase⟩ := e
  cases phase with
  | looping l =>
    refine ⟨.goOn, ?_⟩
    simp only [step]
    split <;> rfl
  | calling i l => exact ⟨.outcome none, rfl⟩
  | awaitingAnswers s pendingChallenges => exact ⟨.verified none, rfl⟩
  | ended final => exact absurd rfl (hphase final)

theorem rank_start : (start input).phase.rank input ≤ 2 * Loop.maxRank input + 3 := by
  have hrank : (Loop.start true (List.range input.challengeCount) (phase1 input)).rank input ≤
      Loop.maxRank input := rank_start_le (List.length_range ..).le
  have heq : (start input).phase.rank input =
      (Loop.start true (List.range input.challengeCount) (phase1 input)).rank input + 1 +
        (Loop.maxRank input + 2) := rfl
  omega

end Exchange

/-! ## The exchanges whose challenges answer by their index -/

section Refinement

variable {input : Input} {s t : Progress} {indices : List Nat} {deferOnPending : Bool}

/-- Some run leads from the one to the other. -/
def Leads (input : Input) (e e' : Exchange) : Prop :=
  ∃ events, Run (step input) anyStep e events e'

theorem Leads.refl (e : Exchange) : Leads input e e := ⟨[], .nil e⟩

theorem Leads.trans {e e' e'' : Exchange} (h : Leads input e e') (h' : Leads input e' e'') :
    Leads input e e'' := by
  obtain ⟨events, hrun⟩ := h
  obtain ⟨events', hrun'⟩ := h'
  exact ⟨events ++ events', hrun.append hrun'⟩

theorem Leads.single {e e' : Exchange} {event : Event} (h : step input e event = some e') :
    Leads input e e' := ⟨[event], .cons trivial h (.nil _)⟩

theorem leads_goesOn {calls : List Call} {l l' : Loop} (h : l.next input = .goesOn l') :
    Leads input ⟨calls, .looping l⟩ ⟨calls, .looping l'⟩ := by
  refine .single (show step input _ .goOn = _ from ?_)
  simp only [step, h]

/-- A call and what it gave. -/
theorem leads_record {calls : List Call} {l : Loop} {i : Nat} {outcome : Outcome}
    (h : l.next input = .calls i) : ∃ calls',
    Leads input ⟨calls, .looping l⟩ ⟨calls', .looping (l.record i outcome)⟩ := by
  have hcall : step input ⟨calls, .looping l⟩ .goOn =
      some ⟨calls ++ [⟨i, l.progress⟩], .calling i l⟩ := by simp only [step, h]
  have houtcome : step input ⟨calls ++ [⟨i, l.progress⟩], .calling i l⟩ (.outcome (some outcome)) =
      some ⟨calls ++ [⟨i, l.progress⟩], .looping (l.record i outcome)⟩ := rfl
  exact ⟨_, .trans (.single hcall) (.single houtcome)⟩

theorem leads_of_visit {i : Nat} {rest : List Nat} {progress progressed : Bool} (calls : List Call)
    (h : visit input s i = .ok (t, progress)) : ∃ calls', Leads input
      ⟨calls, .looping ⟨deferOnPending, indices, s, i :: rest, progressed⟩⟩
      ⟨calls', .looping ⟨deferOnPending, indices, t, rest, progressed || progress⟩⟩ := by
  rw [visit] at h
  split at h
  · rename_i hdecided
    cases h
    exact ⟨calls, leads_goesOn (by simp [Loop.next, hdecided])⟩
  · rename_i hdecided
    split at h
    · rename_i hdecision
      cases h
      exact ⟨calls, leads_goesOn (by simp [Loop.next, hdecided, hdecision])⟩
    · rename_i hdecision
      cases h
      exact ⟨calls, leads_goesOn (by simp [Loop.next, hdecided, hdecision])⟩
    · rename_i hdecision
      cases h
      exact ⟨calls, leads_goesOn (by simp [Loop.next, hdecided, hdecision])⟩
    · rename_i hdecision
      cases hcall : callGetChallenge input i with
      | error e =>
        rw [hcall] at h
        cases h
      | ok outcome =>
        rw [hcall] at h
        cases h
        rw [Bool.or_true]
        exact leads_record (by simp [Loop.next, hdecided, hdecision])

theorem leads_of_pass {rest : List Nat} {progress progressed : Bool} (calls : List Call)
    (h : pass input rest s = .ok (t, progress)) : ∃ calls', Leads input
      ⟨calls, .looping ⟨deferOnPending, indices, s, rest, progressed⟩⟩
      ⟨calls', .looping ⟨deferOnPending, indices, t, [], progressed || progress⟩⟩ := by
  induction rest generalizing calls s progress progressed with
  | nil =>
    cases h
    rw [Bool.or_false]
    exact ⟨calls, .refl _⟩
  | cons i rest ih =>
    rw [pass] at h
    split at h
    · cases h
    · rename_i u first hvisit
      split at h
      · cases h
      · rename_i v last hpass
        cases h
        obtain ⟨calls', hfirst⟩ := leads_of_visit calls hvisit
        obtain ⟨calls'', hrest⟩ := ih calls' hpass
        rw [Bool.or_assoc] at hrest
        exact ⟨calls'', hfirst.trans hrest⟩

/-- A loop that has begun a new pass because the last one, or a call, made progress. -/
theorem leads_restart (calls : List Call) : Leads input
    ⟨calls, .looping ⟨deferOnPending, indices, s, [], true⟩⟩
    ⟨calls, .looping (.start deferOnPending indices s)⟩ := leads_goesOn rfl

theorem leads_of_resolve {fuel : Nat} (hindices : ∀ i ∈ indices, i < input.challengeCount)
    (calls : List Call) (hfuel : (undecided input s).card < fuel)
    (h : resolve input deferOnPending indices fuel s = .ok t) : ∃ calls' l,
      Leads input ⟨calls, .looping (.start deferOnPending indices s)⟩ ⟨calls', .looping l⟩ ∧
        l.deferOnPending = deferOnPending ∧ l.next input = .ends t := by
  induction fuel generalizing calls s with
  | zero => exact absurd hfuel (Nat.not_lt_zero _)
  | succ fuel ih =>
    rw [resolve] at h
    split at h
    · cases h
    · rename_i u hpass
      obtain ⟨calls', hleads⟩ : ∃ calls', Leads input
          ⟨calls, .looping (.start deferOnPending indices s)⟩
          ⟨calls', .looping ⟨deferOnPending, indices, u, [], true⟩⟩ := leads_of_pass calls hpass
      rcases pass_cases hindices hpass with ⟨-, hfalse⟩ | ⟨-, hlt⟩
      · cases hfalse
      · have hcard := Finset.card_lt_card hlt
        obtain ⟨calls'', l, hrest, hl⟩ := ih calls' (by omega) h
        exact ⟨calls'', l, (hleads.trans (leads_restart calls')).trans hrest, hl⟩
    · rename_i u hpass
      obtain ⟨calls', hleads⟩ : ∃ calls', Leads input
          ⟨calls, .looping (.start deferOnPending indices s)⟩
          ⟨calls', .looping ⟨deferOnPending, indices, u, [], false⟩⟩ := leads_of_pass calls hpass
      rcases pass_cases hindices hpass with ⟨rfl, -⟩ | ⟨hfalse, -⟩
      · split at h
        · rename_i hfirst
          cases h
          exact ⟨calls', _, hleads, rfl, by simp [Loop.next, hfirst]⟩
        · rename_i i hfirst
          split at h
          · rename_i hpending
            cases h
            refine ⟨calls', _, hleads, rfl, ?_⟩
            simp only [Loop.next, hfirst, hpending]
            rfl
          · rename_i hpending
            split at h
            · rename_i hfinal
              cases h
              refine ⟨calls', _, hleads, rfl, ?_⟩
              simp only [Loop.next, hfirst, hpending, hfinal]
              rfl
            · rename_i hfinal
              split at h
              · cases h
              · -- the break of a cycle is followed by another pass
                rename_i outcome hcall
                have hmem := mem_of_firstUndecided hfirst
                have hcard : (undecided input (u.setResult i outcome)).card <
                    (undecided input u).card := by
                  rw [undecided_update rfl]
                  exact Finset.card_erase_lt_of_mem hmem
                obtain ⟨calls₂, hrecord⟩ : ∃ calls₂, Leads input
                    ⟨calls', .looping ⟨deferOnPending, indices, u, [], false⟩⟩
                    ⟨calls₂, .looping ⟨deferOnPending, indices, u.setResult i outcome, [], true⟩⟩ :=
                  leads_record (by simp only [Loop.next, hfirst, hpending, hfinal]; rfl)
                obtain ⟨calls₃, l, hrest, hl⟩ := ih calls₂ (by omega) h
                exact ⟨calls₃, l,
                  ((hleads.trans hrecord).trans (leads_restart calls₂)).trans hrest, hl⟩
      · cases hfalse

/-- A loop that ends as it does at the time of the request. -/
theorem leads_afterRequest (h : resolveAtRequest input = .ok s) : ∃ calls l,
    Leads input (start input) ⟨calls, .looping l⟩ ∧ l.deferOnPending = true ∧
      step input ⟨calls, .looping l⟩ .goOn = some ⟨calls, afterRequest input s⟩ := by
  obtain ⟨calls, l, hleads, hdefer, hends⟩ :=
    leads_of_resolve (fun i hi => List.mem_range.1 hi) [] card_undecided_lt h
  exact ⟨calls, l, hleads, hdefer, by simp only [step, hends, hdefer, if_true]⟩

/-- The results are those of a function of the index that the challenges verify their answers by. -/
theorem exists_hydrate {pendingChallenges : List (Nat × Challenge)}
    {challengeAnswers : List String} {results : Results}
    (h : verifyAnswers input pendingChallenges challengeAnswers s.results = .ok results) :
    ∃ verified, results = hydrate s pendingChallenges verified := by
  have hresult : ∀ i, ∃ r, i ∈ pendingChallenges.map Prod.fst → results i = some (.result r) := by
    intro i
    rcases verifyAnswers_eq h i with ⟨hmem, -⟩ | ⟨-, r, -, hr, -⟩
    · exact ⟨.failure "" none, fun hi => absurd hi hmem⟩
    · exact ⟨r, fun _ => hr⟩
  obtain ⟨verified, hverified⟩ := Classical.skolem.1 hresult
  refine ⟨verified, funext fun i => ?_⟩
  rcases verifyAnswers_eq h i with ⟨hmem, hsame⟩ | ⟨hmem, -⟩
  · rw [hydrate, if_neg hmem, hsame]
  · rw [hydrate, if_pos hmem, hverified i hmem]

/-- What the first function gives is what follows its loop. -/
theorem afterRequest_eq {out : PendingOrVerification} (hchallenges : input.challenges ≠ none)
    (h : getPendingChallengesOrChallengeVerification input = .ok (out, s)) :
    afterRequest input s =
      match out with
      | .verification _ => .ended (some s)
      | .pending pendingChallenges _ _ _ => .awaitingAnswers s pendingChallenges := by
  rw [getPendingChallengesOrChallengeVerification] at h
  split at h
  · rename_i hnone
    exact absurd hnone hchallenges
  · split at h
    · cases h
    · split at h
      · cases h
      · rename_i c hclassify
        split at h
        · rename_i hpending
          cases h
          simp only [afterRequest, hclassify, if_pos hpending]
        · rename_i hpending
          cases h
          simp only [afterRequest, hclassify, if_neg hpending]

theorem finish_final {pendingApprovalSuccess : Bool} {v : Verification} :
    (finish input pendingApprovalSuccess v s).final = s := by
  cases v <;> rfl

/-- The two ways in which an exchange comes to its verdict: at the time of the request, or when the
answers are there. -/
inductive Decides (input : Input) (s : Progress) (calls : List Call) (ended : Ended) : Prop
  | request {c : Classification} (hafter : afterRequest input s = .ended (some s))
      (hclassify : classify input s (List.range input.challengeCount) {} = .ok c)
      (heq : ended = finish input false c.verification s)
  | answers {c c' : Classification} {t : Progress} {calls' : List Call}
      (hafter : afterRequest input s = .awaitingAnswers s c.pendingChallenges)
      (hclassify : classify input s (List.range input.challengeCount) {} = .ok c)
      (hleads : Leads input ⟨calls, .awaitingAnswers s c.pendingChallenges⟩
        ⟨calls', .ended (some t)⟩)
      (hclassify' : classify input t (List.range input.challengeCount) {} = .ok c')
      (heq : ended = finish input c.pendingApprovalSuccess c'.verification t)

/-- **Every exchange is a run.** -/
theorem run_of_getChallengeVerification {ended : Ended}
    (h : getChallengeVerification input = .ok ended) : ∃ s calls l,
    Leads input (start input) ⟨calls, .looping l⟩ ∧ l.deferOnPending = true ∧
      step input ⟨calls, .looping l⟩ .goOn = some ⟨calls, afterRequest input s⟩ ∧
      Decides input s calls ended := by
  rw [getChallengeVerification] at h
  split at h
  · cases h
  · rename_i settings hsettings
    have hchallenges : input.challenges ≠ none := by
      rw [hsettings]
      simp
    split at h
    · cases h
    · rename_i v s hrequest
      cases h
      obtain ⟨c, hresolve, hclassify, hout⟩ :=
        getPendingChallengesOrChallengeVerification_eq_ok hchallenges hrequest
      rcases hout with hout | ⟨hout, -⟩ <;> cases hout
      obtain ⟨calls, l, hleads, hdefer, hstep⟩ := leads_afterRequest hresolve
      exact ⟨s, calls, l, hleads, hdefer, hstep,
        .request (afterRequest_eq hchallenges hrequest) hclassify rfl⟩
    · rename_i pendingChallenges asks deferredChallenges partialResults s hrequest
      split at h
      · cases h
      · split at h
        · cases h
        · rename_i v t hanswers
          cases h
          obtain ⟨c, hresolve, hclassify, hout⟩ :=
            getPendingChallengesOrChallengeVerification_eq_ok hchallenges hrequest
          obtain ⟨calls, l, hrequested, hdefer, hstep⟩ := leads_afterRequest hresolve
          rcases hout with hout | ⟨hout, -⟩ <;> cases hout
          obtain ⟨results, c', hverify, hresolve', hclassify', rfl⟩ :=
            getChallengeVerificationFromChallengeAnswers_eq_ok hanswers
          obtain ⟨verified, rfl⟩ := exists_hydrate hverify
          have hverified : Leads input ⟨calls, .awaitingAnswers s c.pendingChallenges⟩
              ⟨calls, .looping (answersLoop input s (hydrate s c.pendingChallenges verified))⟩ :=
            .single (show step input _ (.verified (some verified)) = _ from rfl)
          obtain ⟨calls', l', hleads, hdefer', hends⟩ := leads_of_resolve
            (fun i hi => List.mem_range.1 (List.mem_filter.1 hi).1) calls card_undecided_lt hresolve'
          have hlast : step input ⟨calls', .looping l'⟩ .goOn = some ⟨calls', .ended (some t)⟩ := by
            simp [step, hends, hdefer', afterAnswers, hclassify']
          exact ⟨s, calls, l, hrequested, hdefer, hstep, .answers
            (afterRequest_eq hchallenges hrequest) hclassify
            ((hverified.trans hleads).trans (.single hlast)) hclassify' rfl⟩

/-- **What an exchange calls.**  An exchange that comes to its end is a run, of which the calls are
of different challenges, each of them due. -/
theorem exchange_is_scheduled {ended : Ended} (h : getChallengeVerification input = .ok ended) :
    ∃ calls, Leads input (start input) ⟨calls, .ended (some ended.final)⟩ ∧
      (calls.map Call.index).Nodup ∧ ∀ call ∈ calls, call.Due input := by
  obtain ⟨s, calls, l, hleads, -, hstep, hdecides⟩ := run_of_getChallengeVerification h
  have hrequested := hleads.trans (.single hstep)
  obtain ⟨calls', events, hrun⟩ : ∃ calls',
      Leads input (start input) ⟨calls', .ended (some ended.final)⟩ := by
    cases hdecides with
    | request hafter _ heq =>
      rw [hafter] at hrequested
      rw [heq, finish_final]
      exact ⟨calls, hrequested⟩
    | answers hafter _ hleads' _ heq =>
      rw [hafter] at hrequested
      rw [heq, finish_final]
      exact ⟨_, hrequested.trans hleads'⟩
  obtain ⟨hscheduled, -⟩ := scheduled_start.run hrun
  exact ⟨calls', ⟨events, hrun⟩, hscheduled.once, hscheduled.due⟩

theorem captcha_is_scheduled : ∃ ended calls,
    getChallengeVerification captchaFirst = .ok ended ∧
      Leads captchaFirst (start captchaFirst) ⟨calls, .ended (some ended.final)⟩ ∧
      (calls.map Call.index).Nodup ∧ ∀ call ∈ calls, call.Due captchaFirst := by
  obtain ⟨ended, h⟩ : ∃ ended, getChallengeVerification captchaFirst = .ok ended := ⟨_, rfl⟩
  obtain ⟨calls, hcalls⟩ := exchange_is_scheduled h
  exact ⟨ended, calls, h, hcalls⟩

end Refinement

/-! ## The schedule -/

/-- **Challenges are scheduled.**  Whatever the challenges answer, a run of the exchange has at most
`2 n² + 10 n + 3` steps and can go on until it has ended; it has called no challenge twice, and none
that the request excuses or that an exclude item excused when it was called. -/
theorem scheduled_run {input : Input} {events : List Event} {e : Exchange}
    (hrun : Run (step input) anyStep (start input) events e) :
    events.length ≤ 2 * (input.challengeCount * (input.challengeCount + 5)) + 3 ∧
      ((∃ final, e.phase = .ended final) ∨ ∃ event, (step input e event).isSome = true) ∧
      (e.calls.map Call.index).Nodup ∧ ∀ call ∈ e.calls, call.Due input := by
  obtain ⟨hscheduled, hlength⟩ := scheduled_start.run hrun
  have hrank : (start input).phase.rank input ≤ 2 * Loop.maxRank input + 3 := rank_start
  have hmax : Loop.maxRank input = input.challengeCount * (input.challengeCount + 5) := by
    rw [Loop.maxRank, Nat.mul_add _ _ 5, Nat.mul_add]
    omega
  refine ⟨by omega, ?_, hscheduled.once, hscheduled.due⟩
  by_cases hended : ∃ final, e.phase = .ended final
  · exact .inl hended
  · exact .inr (exists_step fun final heq => hended ⟨final, heq⟩)

/-- Two challenges, of which the first lists itself and one that does not exist. -/
def selfExcluding : Input :=
  exchangeOf [[{ challenges := some [0] }, { challenges := some [7] }], []] [] (.success none none)

/-- The second challenge is called first and the one that waits for itself after it. -/
theorem scheduled_run_selfExcluding : ∃ events e,
    Run (step selfExcluding) anyStep (start selfExcluding) events e ∧
      e.calls.map Call.index = [1, 0] ∧ (e.calls.map Call.index).Nodup := by
  obtain ⟨events, e, hrun, hcalls⟩ : ∃ events e,
      Run (step selfExcluding) anyStep (start selfExcluding) events e ∧
        e.calls.map Call.index = [1, 0] :=
    ⟨_, _, .cons (a := .goOn) trivial rfl <| .cons (a := .goOn) trivial rfl <|
      .cons (a := .outcome (some (.result (.success none none)))) trivial rfl <|
      .cons (a := .goOn) trivial rfl <| .cons (a := .goOn) trivial rfl <|
      .cons (a := .goOn) trivial rfl <| .cons (a := .goOn) trivial rfl <| .nil _, rfl⟩
  exact ⟨events, e, hrun, hcalls, (scheduled_run hrun).2.2.1⟩

end Scheduling
end Challenges
end Pkc

import Pkc.Challenges.Scheduling

/-!
# What a successful exchange has settled

A challenge is settled if it is excluded for the request, if it succeeded, or if all challenges one
of its exclude items lists succeeded.  An exchange that succeeds should leave every challenge
settled.

A challenge that was called may be excused while it waits for its answer, so that the answer is
never asked for.  This is where exchanges go wrong: what is deferred until the answer is there may
be dropped with it, and an item that lists the challenge neither holds nor fails.

* `Careful` is a step that ends the loop of the request in an orderly progress, and calls no
  deferred challenge that is interactive.
* `Kept` is what the two loops keep, and `PhaseKeeps` what the exchange keeps in each phase.
* `AtEnd` are the three ways in which an exchange ends.
* `settled_of_run` proves that a careful run that succeeds has settled every challenge.
-/

set_option autoImplicit false

namespace Pkc
namespace Challenges
namespace Scheduling

open Runs

/-! ## Careful steps -/

section Careful

variable (input : Input) (s : Progress)

/-- What a challenge of a successful exchange should be. -/
def Settled (i : Nat) : Prop :=
  (input.excludes i).shouldExclude = true ∨ isSuccess (s.results i) = true ∨
    Excused input s.results i

/-- The classification counts no failure. -/
def NoFailure : Prop :=
  ∀ i < input.challengeCount, isFailure (s.results i) = true → counted input s i = false

/-- At the time of the request: the challenge is deferred, failed or waits for its answer, and no
item excuses it. -/
def Outstanding (i : Nat) : Prop :=
  (s.deferred i = true ∨ isFailure (s.results i) = true ∨ isPending (s.results i) = true) ∧
    ¬ Excused input s.results i

/-- No outstanding challenge lists one that was excused while it waited for its answer. -/
def NoneWaitsInVain : Prop :=
  ∀ i < input.challengeCount, Outstanding input s i → ∀ item ∈ input.itemsOf i, ∀ j ∈ item.deps,
    isPending (s.results j) = true → ¬ Excused input s.results j

/-- As long as a deferred challenge is not excused, one that waits for its answer is not either. -/
def DeferredGoOn : Prop :=
  (∃ i < input.challengeCount, s.deferred i = true ∧ ¬ Excused input s.results i) →
    ∃ j < input.challengeCount, isPending (s.results j) = true ∧ ¬ Excused input s.results j

/-- How the loop of a request that does not fail should end. -/
def Orderly : Prop := NoFailure input s → NoneWaitsInVain input s ∧ DeferredGoOn input s

/-- The loop that is running. -/
def Phase.loop? : Phase → Option Loop
  | .looping l => some l
  | _ => none

/-- The loop that waits for a challenge. -/
def Phase.call? : Phase → Option Loop
  | .calling _ l => some l
  | _ => none

/-- What a loop ends with. -/
def Move.ends? : Move → Option Progress
  | .ends s => some s
  | _ => none

/-- The loop of the request ends in a progress with `AtRequest`, and a deferred challenge is called
only if it is not interactive. -/
def Careful (AtRequest : Progress → Prop) (e : Exchange) : Event → Prop
  | .goOn => ∀ l ∈ e.phase.loop?, ∀ s ∈ (l.next input).ends?, l.deferOnPending = true → AtRequest s
  | .outcome outcome =>
    ∀ l ∈ e.phase.call?, l.deferOnPending = false → isPending outcome = false
  | .verified _ => True

instance (i : Nat) : Decidable (Outstanding input s i) :=
  inferInstanceAs (Decidable (_ ∧ ¬ Excused input s.results i))

instance : Decidable (NoFailure input s) :=
  inferInstanceAs (Decidable
    (∀ i < input.challengeCount, isFailure (s.results i) = true → counted input s i = false))

instance : Decidable (NoneWaitsInVain input s) :=
  inferInstanceAs (Decidable (∀ i < input.challengeCount, Outstanding input s i →
    ∀ item ∈ input.itemsOf i, ∀ j ∈ item.deps,
      isPending (s.results j) = true → ¬ Excused input s.results j))

instance : Decidable (DeferredGoOn input s) :=
  inferInstanceAs (Decidable
    ((∃ i < input.challengeCount, s.deferred i = true ∧ ¬ Excused input s.results i) →
      ∃ j < input.challengeCount, isPending (s.results j) = true ∧ ¬ Excused input s.results j))

instance : Decidable (Orderly input s) :=
  inferInstanceAs (Decidable (NoFailure input s → NoneWaitsInVain input s ∧ DeferredGoOn input s))

instance (AtRequest : Progress → Prop) [∀ s, Decidable (AtRequest s)] (e : Exchange) :
    ∀ event, Decidable (Careful input AtRequest e event)
  | .goOn => inferInstanceAs (Decidable (∀ l ∈ e.phase.loop?, ∀ s ∈ (l.next input).ends?,
      l.deferOnPending = true → AtRequest s))
  | .outcome outcome => inferInstanceAs (Decidable
      (∀ l ∈ e.phase.call?, l.deferOnPending = false → isPending outcome = false))
  | .verified _ => .isTrue trivial

end Careful

/-! ## What the two loops keep -/

section Keeps

variable {input : Input} {s t : Progress} {i : Nat}

theorem Settled.mono (hmono : ∀ j, isSuccess (s.results j) = true → isSuccess (t.results j) = true)
    (h : Settled input s i) : Settled input t i :=
  h.imp_right (Or.imp (hmono i) (Excused.mono hmono))

/-- What a loop keeps.  When the answers are there, who still waits is excused, and waits for nobody
who is not settled. -/
structure Kept (input : Input) (atRequest : Bool) (s : Progress) : Prop where
  called : ∀ i, (s.results i).isSome = true →
    i < input.challengeCount ∧ (input.excludes i).shouldExclude = false
  deferred : ∀ i, s.deferred i = true →
    i < input.challengeCount ∧ (input.excludes i).shouldExclude = false
  decided : ∀ i < input.challengeCount, s.decided i = true →
    (input.excludes i).shouldExclude = true ∨ (s.results i).isSome = true ∨
      (atRequest = true ∧ s.deferred i = true) ∨ Excused input s.results i
  waiting : atRequest = false → ∀ i, isPending (s.results i) = true → Excused input s.results i
  settled : atRequest = false → ∀ i < input.challengeCount, ∀ item ∈ input.itemsOf i,
    ∀ j ∈ item.deps, isPending (s.results j) = true → Settled input s i

variable {atRequest : Bool}

theorem Kept.setDecided (h : Kept input atRequest s) (hexcused : Excused input s.results i) :
    Kept input atRequest (s.setDecided i) := by
  refine ⟨h.called, h.deferred, fun j hj hdecided => ?_, h.waiting, h.settled⟩
  rw [Progress.setDecided_decided] at hdecided
  split at hdecided
  · rename_i heq
    exact .inr (.inr (.inr (heq ▸ hexcused)))
  · exact h.decided j hj hdecided

/-- A challenge that is deferred again lists one that waits in vain, so it is settled. -/
theorem Kept.setDeferred {item : Exclude} {k : Nat} (h : Kept input atRequest s)
    (hi : i < input.challengeCount) (hexcluded : (input.excludes i).shouldExclude = false)
    (hitem : item ∈ input.itemsOf i) (hk : k ∈ item.deps)
    (hpending : isPending (s.results k) = true) : Kept input atRequest (s.setDeferred i) := by
  refine ⟨h.called, fun j hj => ?_, fun j hj hdecided => ?_, h.waiting, h.settled⟩
  · rw [Progress.setDeferred_deferred] at hj
    split at hj
    · rename_i heq
      exact heq ▸ ⟨hi, hexcluded⟩
    · exact h.deferred j hj
  rw [Progress.setDeferred_decided] at hdecided
  split at hdecided
  · rename_i heq
    subst heq
    cases atRequest with
    | true => exact .inr (.inr (.inl ⟨rfl, by simp⟩))
    | false =>
      rcases h.settled rfl j hi item hitem k hk hpending with hexcluded | hsuccess | hexcused
      · exact .inl hexcluded
      · exact .inr (.inl (isSome_of_isSuccess hsuccess))
      · exact .inr (.inr (.inr hexcused))
  · refine (h.decided j hj hdecided).imp_right (Or.imp_right (Or.imp_left ?_))
    rintro ⟨hat, hdeferred⟩
    exact ⟨hat, by simp [hdeferred]⟩

/-- A result of a challenge that had none leaves the successes there were. -/
theorem isSuccess_setResult {outcome : Outcome} (hnone : s.results i = none) (j : Nat)
    (hj : isSuccess (s.results j) = true) :
    isSuccess ((s.setResult i outcome).results j) = true := by
  have hne : j ≠ i := by
    rintro rfl
    rw [hnone] at hj
    cases hj
  rwa [Progress.setResult_results, if_neg hne]

theorem Kept.setResult {outcome : Outcome} (h : Kept input atRequest s)
    (hi : i < input.challengeCount) (hexcluded : (input.excludes i).shouldExclude = false)
    (hnone : s.results i = none)
    (houtcome : atRequest = false → isPending (some outcome) = false) :
    Kept input atRequest (s.setResult i outcome) := by
  have hmono : ∀ j, isSuccess (s.results j) = true →
      isSuccess ((s.setResult i outcome).results j) = true := isSuccess_setResult hnone
  have hpending : atRequest = false → ∀ j, isPending ((s.setResult i outcome).results j) = true →
      isPending (s.results j) = true := by
    intro hat j hj
    rw [Progress.setResult_results] at hj
    split at hj
    · rw [houtcome hat] at hj
      cases hj
    · exact hj
  refine ⟨fun j hj => ?_, h.deferred, fun j hj hdecided => ?_,
    fun hat j hj => (h.waiting hat j (hpending hat j hj)).mono hmono,
    fun hat j hj item hitem k hk hwaits =>
      (h.settled hat j hj item hitem k hk (hpending hat k hwaits)).mono hmono⟩
  · rw [Progress.setResult_results] at hj
    split at hj
    · rename_i heq
      exact heq ▸ ⟨hi, hexcluded⟩
    · exact h.called j hj
  · rw [Progress.setResult_decided] at hdecided
    rw [Progress.setResult_results]
    split at hdecided
    · rename_i heq
      exact .inr (.inl (by simp [heq]))
    · rename_i hne
      rw [if_neg hne]
      exact (h.decided j hj hdecided).imp_right (Or.imp_right (Or.imp_right (Excused.mono hmono)))

theorem Kept.deferRemaining {called : Nat → Prop} (h : Kept input true s)
    (htidy : Tidy input called s) : Kept input true (s.deferRemaining input.challengeCount) := by
  refine ⟨h.called, fun j hj => ?_, fun j hj _ => ?_, nofun, nofun⟩
  · rw [Progress.deferRemaining_deferred, Bool.or_eq_true, Bool.and_eq_true,
      Bool.not_eq_true', decide_eq_true_eq] at hj
    rcases hj with hj | ⟨hundecided, hlt⟩
    · exact h.deferred j hj
    · exact ⟨hlt, (htidy.of_undecided hundecided).2.1⟩
  cases hdecided : s.decided j with
  | true =>
    refine (h.decided j hj hdecided).imp_right (Or.imp_right (Or.imp_left ?_))
    rintro ⟨hat, hdeferred⟩
    exact ⟨hat, by simp [hdeferred]⟩
  | false => exact .inr (.inr (.inl ⟨rfl, by simp [hdecided, hj]⟩))

/-! ### The moves of a loop -/

variable {called : Nat → Prop} {l l' : Loop}

/-- A loop that goes on leaves its progress as it is, or decides a challenge that is excused or
lists a pending one. -/
theorem kept_goesOn (hok : LoopOk input called l) (h : Kept input l.deferOnPending l.progress)
    (hnext : l.next input = .goesOn l') : Kept input l'.deferOnPending l'.progress := by
  rw [Loop.next] at hnext
  split at hnext
  · rename_i i rest hrest
    split at hnext
    · cases hnext
      exact h
    · rename_i hdecided
      have hmem := hok.mem_undecided hrest (Bool.of_not_eq_true hdecided)
      split at hnext
      · cases hnext
        exact h
      · rename_i hdecision
        cases hnext
        exact h.setDecided (excused_of_evaluateItems hdecision)
      · rename_i hdecision
        cases hnext
        obtain ⟨item, hitem, k, hk, hpending⟩ :=
          (pending_of_evaluateItems hdecision).resolve_left Bool.false_ne_true
        obtain ⟨hlt, hundecided⟩ := Challenges.mem_undecided.1 hmem
        exact h.setDeferred hlt (hok.tidy.of_undecided hundecided).2.1 hitem hk hpending
      · cases hnext
  · split at hnext
    · cases hnext
      exact h
    · split at hnext
      · cases hnext
      · split at hnext
        · cases hnext
        · split at hnext <;> cases hnext

/-- A loop ends when everything is decided, or it defers the rest: because a challenge is pending,
at the time of the request, or because a failure is final. -/
theorem Loop.ends_cases (hnext : l.next input = .ends s) :
    (s = l.progress ∧ undecided input s = ∅) ∨ (s = l.progress.deferRemaining input.challengeCount ∧
      (l.deferOnPending = false → anyDecidedFailureIsFinal input l.progress = true)) := by
  rw [Loop.next] at hnext
  split at hnext
  · split at hnext
    · cases hnext
    · split at hnext <;> cases hnext
  · split at hnext
    · cases hnext
    · split at hnext
      · rename_i hnone
        cases hnext
        exact .inl ⟨rfl, undecided_of_firstUndecided hnone⟩
      · split at hnext
        · rename_i hpending
          cases hnext
          refine .inr ⟨rfl, fun hat => ?_⟩
          rw [hat, Bool.false_and] at hpending
          cases hpending
        · split at hnext
          · rename_i hfinal
            cases hnext
            exact .inr ⟨rfl, fun _ => hfinal⟩
          · cases hnext

theorem decided_of_finished (hempty : undecided input s = ∅) (hi : i < input.challengeCount) :
    s.decided i = true := by
  rw [← Bool.not_eq_false]
  intro hundecided
  have hmem : i ∈ undecided input s := mem_undecided.2 ⟨hi, hundecided⟩
  rw [hempty] at hmem
  exact Finset.notMem_empty i hmem

/-- What the loop of the request ends in: everything is decided. -/
theorem kept_ends (hok : LoopOk input called l) (h : Kept input l.deferOnPending l.progress)
    (hat : l.deferOnPending = true) (hnext : l.next input = .ends s) :
    Kept input true s ∧ ∀ i < input.challengeCount, s.decided i = true := by
  rw [hat] at h
  rcases Loop.ends_cases hnext with ⟨rfl, hempty⟩ | ⟨rfl, -⟩
  · exact ⟨h, fun i hi => decided_of_finished hempty hi⟩
  · exact ⟨h.deferRemaining hok.tidy, fun i hi => by simp [hi]⟩

/-- The challenges the author is asked to answer. -/
def Asked (input : Input) (s : Progress) (pendingChallenges : List (Nat × Challenge)) : Prop :=
  pendingChallenges.map Prod.fst = (List.range input.challengeCount).filter
    fun i => counted input s i && isPending (s.results i)

theorem Asked.mem_iff {pendingChallenges : List (Nat × Challenge)}
    (h : Asked input s pendingChallenges) : i ∈ pendingChallenges.map Prod.fst ↔
      i < input.challengeCount ∧ counted input s i = true ∧ isPending (s.results i) = true := by
  rw [h, List.mem_filter, List.mem_range, Bool.and_eq_true]

theorem isSome_hydrate {pendingChallenges : List (Nat × Challenge)}
    {verified : Nat → ChallengeResult} (h : Asked input s pendingChallenges) :
    (hydrate s pendingChallenges verified i).isSome = (s.results i).isSome := by
  rw [hydrate]
  split
  · rename_i hmem
    exact (isSome_of_isPending (h.mem_iff.1 hmem).2.2).symm
  · rfl

/-- Answering leaves the results that were there. -/
theorem hydrate_of_not_pending {pendingChallenges : List (Nat × Challenge)}
    {verified : Nat → ChallengeResult} (h : Asked input s pendingChallenges)
    (hi : isPending (s.results i) = false) :
    hydrate s pendingChallenges verified i = s.results i := by
  rw [hydrate, if_neg]
  intro hmem
  rw [(h.mem_iff.1 hmem).2.2] at hi
  cases hi

/-- Who is still pending was not counted. -/
theorem waits_of_hydrate {pendingChallenges : List (Nat × Challenge)}
    {verified : Nat → ChallengeResult} (h : Asked input s pendingChallenges)
    (hbounded : ∀ i, input.challengeCount ≤ i → s.results i = none)
    (hi : isPending (hydrate s pendingChallenges verified i) = true) :
    isPending (s.results i) = true ∧ Excused input s.results i := by
  rw [hydrate] at hi
  split at hi
  · cases hi
  · rename_i hmem
    refine ⟨hi, excused_of_pending hi ?_⟩
    rw [← Bool.not_eq_true]
    refine fun hcounted => hmem (h.mem_iff.2 ⟨?_, hcounted, hi⟩)
    by_contra hout
    rw [hbounded i (Nat.le_of_not_lt hout)] at hi
    cases hi

/-- A challenge that lists one that was excused while it waited is not outstanding, so it is
settled. -/
theorem Kept.settled_of_listed {item : Exclude} {j : Nat} (h : Kept input true s)
    (hdecided : ∀ i < input.challengeCount, s.decided i = true) (hvain : NoneWaitsInVain input s)
    (hi : i < input.challengeCount) (hitem : item ∈ input.itemsOf i) (hj : j ∈ item.deps)
    (hwaits : isPending (s.results j) = true ∧ Excused input s.results j) : Settled input s i := by
  by_contra hnot
  have hopen : ¬ Excused input s.results i := fun hexcused => hnot (.inr (.inr hexcused))
  refine hvain i hi ⟨?_, hopen⟩ item hitem j hj hwaits.1 hwaits.2
  rcases h.decided i hi (hdecided i hi) with hexcluded | hresult | ⟨-, hdeferred⟩ | hexcused
  · exact absurd (.inl hexcluded) hnot
  · rcases success_or_failure_or_pending hresult with hsuccess | hfailure | hpending
    · exact absurd (.inr (.inl hsuccess)) hnot
    · exact .inr (.inl hfailure)
    · exact .inr (.inr hpending)
  · exact .inl hdeferred
  · exact absurd hexcused hopen

/-- What the loop over the deferred challenges begins with. -/
theorem kept_answersLoop {pendingChallenges : List (Nat × Challenge)}
    {verified : Nat → ChallengeResult} (h : Kept input true s)
    (hdecided : ∀ i < input.challengeCount, s.decided i = true)
    (hvain : NoneWaitsInVain input s) (hasked : Asked input s pendingChallenges) :
    Kept input false (answersLoop input s (hydrate s pendingChallenges verified)).progress := by
  have hleft : ∀ i, isPending (hydrate s pendingChallenges verified i) = true →
      isPending (s.results i) = true ∧ Excused input s.results i :=
    fun i hi => waits_of_hydrate hasked
      (fun i hi => Option.not_isSome_iff_eq_none.1 fun h' => absurd (h.called i h').1 (by omega)) hi
  have hmono : ∀ i, isSuccess (s.results i) = true →
      isSuccess (hydrate s pendingChallenges verified i) = true := by
    intro i hi
    rwa [hydrate_of_not_pending hasked (isPending_of_isSuccess hi)]
  refine ⟨fun i hi => h.called i ((isSome_hydrate hasked).symm.trans hi), fun i hi => ?_,
    fun i hi hnot => ?_, fun _ i hi => (hleft i hi).2.mono hmono,
    fun _ i hi item hitem j hj hwaits => ?_⟩
  · have hmem : i ∈ (List.range input.challengeCount).filter s.deferred := of_decide_eq_true hi
    exact h.deferred i (List.mem_filter.1 hmem).2
  · have hdeferred : s.deferred i = false := by
      simpa [answersLoop, Loop.start, answeredProgress, hi] using hnot
    rcases h.decided i hi (hdecided i hi) with hexcluded | hresult | ⟨-, hdef⟩ | hexcused
    · exact .inl hexcluded
    · exact .inr (.inl ((isSome_hydrate hasked).trans hresult))
    · rw [hdeferred] at hdef
      cases hdef
    · exact .inr (.inr (.inr (hexcused.mono hmono)))
  · have hsettled : Settled input s i :=
      h.settled_of_listed hdecided hvain hi hitem hj (hleft j hwaits)
    exact hsettled.mono hmono

end Keeps

/-! ## How an exchange ends -/

/-- The three ways to end. -/
inductive AtEnd (input : Input) (AtRequest : Progress → Prop) (s : Progress) : Prop
  /-- No answer is asked for. -/
  | request (hkept : Kept input true s) (hdecided : ∀ i < input.challengeCount, s.decided i = true)
      (hat : AtRequest s) {c : Classification}
      (hclassify : classify input s (List.range input.challengeCount) {} = .ok c)
      (hasks : ¬ (c.challengeErrors = [] ∧ c.pendingChallenges ≠ []))
  | answers (hkept : Kept input false s)
      (hdecided : ∀ i < input.challengeCount, s.decided i = true)
  /-- A failure is final before every deferred challenge is decided. -/
  | gaveUp (before : Progress) (heq : s = before.deferRemaining input.challengeCount)
      (hkept : Kept input false before) (hfinal : anyDecidedFailureIsFinal input before = true)

def PhaseKeeps (input : Input) (AtRequest : Progress → Prop) : Phase → Prop
  | .looping l => Kept input l.deferOnPending l.progress
  | .calling _ l => Kept input l.deferOnPending l.progress
  | .awaitingAnswers s pendingChallenges => Kept input true s ∧
      (∀ i < input.challengeCount, s.decided i = true) ∧ AtRequest s ∧ NoFailure input s ∧
      Asked input s pendingChallenges
  | .ended none => True
  | .ended (some s) => AtEnd input AtRequest s

section Runs

variable {input : Input} {AtRequest : Progress → Prop} {e e' : Exchange} {s : Progress}

theorem noFailure_of_classify {c : Classification}
    (hclassify : classify input s (List.range input.challengeCount) {} = .ok c)
    (herrors : c.challengeErrors = []) : NoFailure input s := by
  intro i hi hfailure
  have hnames := (classify_eq hclassify).1
  rw [herrors, List.map_nil, List.nil_append, eq_comm, List.filter_eq_nil_iff] at hnames
  have hnot := hnames i (List.mem_range.2 hi)
  rwa [hfailure, Bool.and_true, Bool.not_eq_true] at hnot

theorem phaseKeeps_start : PhaseKeeps input AtRequest (start input).phase :=
  ⟨nofun, nofun, fun _ _ h => .inl h, nofun, nofun⟩

theorem phaseKeeps_afterRequest (h : Kept input true s)
    (hdecided : ∀ i < input.challengeCount, s.decided i = true) (hat : AtRequest s) :
    PhaseKeeps input AtRequest (afterRequest input s) := by
  rw [afterRequest]
  split
  · trivial
  · rename_i c hclassify
    split
    · rename_i hasks
      refine ⟨h, hdecided, hat, noFailure_of_classify hclassify hasks.1, ?_⟩
      rw [Asked, (classify_eq hclassify).2.1, List.map_nil, List.nil_append]
    · rename_i hasks
      exact .request h hdecided hat hclassify hasks

/-- **One step.** -/
theorem phaseKeeps_step {event : Event}
    (hvain : ∀ s, AtRequest s → NoFailure input s → NoneWaitsInVain input s)
    (hscheduled : Scheduled input e) (h : PhaseKeeps input AtRequest e.phase)
    (hcareful : Careful input AtRequest e event) (hstep : step input e event = some e') :
    PhaseKeeps input AtRequest e'.phase := by
  have hphase := hscheduled.phase
  obtain ⟨calls, phase⟩ := e
  cases event with
  | goOn =>
    simp only [Scheduling.step] at hstep
    split at hstep
    · rename_i l
      split at hstep <;> cases hstep
      · rename_i l' hnext
        exact kept_goesOn hphase h hnext
      · exact h
      · rename_i s hnext
        cases hdefer : l.deferOnPending with
        | true =>
          obtain ⟨hkept, hdecided⟩ := kept_ends hphase h hdefer hnext
          exact phaseKeeps_afterRequest hkept hdecided
            (hcareful l rfl s (by rw [hnext]; rfl) hdefer)
        | false =>
          have hkept : Kept input false l.progress := hdefer ▸ h
          have hended : AtEnd input AtRequest s := by
            rcases Loop.ends_cases hnext with ⟨rfl, hempty⟩ | ⟨rfl, hfinal⟩
            · exact .answers hkept fun i hi => decided_of_finished hempty hi
            · exact .gaveUp _ rfl hkept (hfinal hdefer)
          rw [if_neg Bool.false_ne_true, afterAnswers]
          split
          · trivial
          · exact hended
    · cases hstep
  | outcome outcome =>
    simp only [Scheduling.step] at hstep
    split at hstep
    · rename_i i l
      obtain ⟨hmem, before, -, hloop⟩ := hphase
      split at hstep <;> cases hstep
      · trivial
      · rename_i outcome
        obtain ⟨hlt, hundecided⟩ := Challenges.mem_undecided.1 hmem
        obtain ⟨hnone, hexcluded, -⟩ := hloop.tidy.of_undecided hundecided
        exact h.setResult hlt hexcluded hnone (hcareful l rfl)
    · cases hstep
  | verified results =>
    simp only [Scheduling.step] at hstep
    split at hstep
    · rename_i s pendingChallenges
      obtain ⟨hkept, hdecided, hat, hnone, hasked⟩ := h
      split at hstep <;> cases hstep
      · trivial
      · exact kept_answersLoop hkept hdecided (hvain s hat hnone) hasked
    · cases hstep

/-- **Every careful run.** -/
theorem phaseKeeps_run {events : List Event}
    (hvain : ∀ s, AtRequest s → NoFailure input s → NoneWaitsInVain input s)
    (hrun : Run (step input) (Careful input AtRequest) (start input) events e) :
    PhaseKeeps input AtRequest e.phase := by
  have hboth : Scheduled input e ∧ PhaseKeeps input AtRequest e.phase :=
    hrun.invariant (I := fun e => Scheduled input e ∧ PhaseKeeps input AtRequest e.phase)
      (fun _ _ _ h hcareful hstep =>
        ⟨(h.1.step hstep).1, phaseKeeps_step hvain h.1 h.2 hcareful hstep⟩)
      ⟨scheduled_start, phaseKeeps_start⟩
  exact hboth.2

/-! ## Soundness -/

/-- The verification that is read off the progress is a success. -/
def Succeeds (input : Input) (s : Progress) : Prop :=
  ∃ c, classify input s (List.range input.challengeCount) {} = .ok c ∧ c.challengeErrors = []

theorem Succeeds.noFailure (h : Succeeds input s) : NoFailure input s := by
  obtain ⟨c, hclassify, herrors⟩ := h
  exact noFailure_of_classify hclassify herrors

/-- A result that is not counted as a failure is a success, or its challenge is excused, or it lists
one that waits in vain. -/
theorem settled_of_result {i : Nat} (hnone : NoFailure input s) (hi : i < input.challengeCount)
    (hwaiting : isPending (s.results i) = true → Excused input s.results i)
    (hlisted : ∀ item ∈ input.itemsOf i, ∀ j ∈ item.deps, isPending (s.results j) = true →
      Settled input s i) (hresult : (s.results i).isSome = true) : Settled input s i := by
  rcases success_or_failure_or_pending hresult with h | h | h
  · exact .inr (.inl h)
  · rcases excused_of_not_counted hresult (hnone i hi h) with
      hexcused | ⟨item, hitem, ⟨j, hj, hpending⟩, -⟩
    · exact .inr (.inr hexcused)
    · exact hlisted item hitem j hj hpending
  · exact .inr (.inr (hwaiting h))

/-- **A final failure is counted**: it waits for nobody. -/
theorem counted_of_final (h : Kept input false s)
    (hfinal : anyDecidedFailureIsFinal input s = true) :
    ∃ i < input.challengeCount, isFailure (s.results i) = true ∧ counted input s i = true ∧
      ∀ item ∈ input.itemsOf i, item.deps ≠ [] → ∃ j ∈ item.deps,
        s.decided j = true ∧ isSuccess (s.results j) = false ∧ isPending (s.results j) = false := by
  rw [anyDecidedFailureIsFinal, List.any_eq_true] at hfinal
  obtain ⟨i, hi, hfinal⟩ := hfinal
  rw [Bool.and_eq_true, Bool.and_eq_true, Bool.not_eq_true'] at hfinal
  obtain ⟨⟨-, hfailure⟩, hcan⟩ := hfinal
  have hlt := List.mem_range.1 hi
  have hdead : ∀ item ∈ input.itemsOf i, item.deps ≠ [] →
      ∃ j ∈ item.deps, s.decided j = true ∧ isSuccess (s.results j) = false := by
    intro item hitem hdeps
    rw [canFailedChallengeStillBeExcluded, List.any_eq_false] at hcan
    simpa [hdeps] using hcan item hitem
  -- it is not settled, so none of its items lists a challenge that waits
  have hnot : ¬ Settled input s i := by
    rintro (hexcluded | hsuccess | ⟨item, hitem, hdeps, hall⟩)
    · rw [(h.called i (isSome_of_isFailure hfailure)).2] at hexcluded
      cases hexcluded
    · rw [isSuccess_of_isFailure hfailure] at hsuccess
      cases hsuccess
    · obtain ⟨j, hj, -, hfailed⟩ := hdead item hitem hdeps
      rw [hall j hj] at hfailed
      cases hfailed
  have hclear : ∀ item ∈ input.itemsOf i, item.deps ≠ [] → ∃ j ∈ item.deps,
      s.decided j = true ∧ isSuccess (s.results j) = false ∧ isPending (s.results j) = false := by
    intro item hitem hdeps
    obtain ⟨j, hj, hdecided, hfailed⟩ := hdead item hitem hdeps
    refine ⟨j, hj, hdecided, hfailed, ?_⟩
    rw [← Bool.not_eq_true]
    exact fun hpending => hnot (h.settled rfl i hlt item hitem j hj hpending)
  refine ⟨i, hlt, hfailure, (counted_iff_of_failure hfailure).2 fun item hitem hdeps => ?_, hclear⟩
  obtain ⟨j, hj, -, hj'⟩ := hclear item hitem hdeps
  exact ⟨j, hj, hj'⟩

/-- An exchange that ends without asking for an answer has excused every challenge that waits. -/
theorem excused_of_ends {c : Classification} {i : Nat} (hkept : Kept input true s)
    (hclassify : classify input s (List.range input.challengeCount) {} = .ok c)
    (hasks : ¬ (c.challengeErrors = [] ∧ c.pendingChallenges ≠ []))
    (herrors : c.challengeErrors = [])
    (hpending : isPending (s.results i) = true) : Excused input s.results i := by
  refine excused_of_pending hpending ?_
  rw [← Bool.not_eq_true]
  intro hcounted
  have hnames := (classify_eq hclassify).2.1
  refine hasks ⟨herrors, fun hnil => ?_⟩
  rw [hnil, List.map_nil, List.nil_append, eq_comm, List.filter_eq_nil_iff] at hnames
  have hi := (hkept.called i (isSome_of_isPending hpending)).1
  exact hnames i (List.mem_range.2 hi) (by rw [hcounted, hpending]; rfl)

/-- An orderly exchange that ends in a success has settled every challenge. -/
theorem AtEnd.settled {i : Nat} (hend : AtEnd input AtRequest s)
    (horderly : ∀ s, AtRequest s → Orderly input s) (hsuccess : Succeeds input s)
    (hi : i < input.challengeCount) : Settled input s i := by
  have hnone := hsuccess.noFailure
  cases hend with
  | request hkept hdecided hat hclassify hasks =>
    obtain ⟨c, hclassify', herrors⟩ := hsuccess
    rw [hclassify] at hclassify'
    cases hclassify'
    obtain ⟨hvain, hgoOn⟩ := horderly s hat hnone
    have hwaiting : ∀ j, isPending (s.results j) = true → Excused input s.results j :=
      fun j => excused_of_ends hkept hclassify hasks herrors
    rcases hkept.decided i hi (hdecided i hi) with h | h | ⟨-, hdeferred⟩ | h
    · exact .inl h
    · exact settled_of_result hnone hi (hwaiting i)
        (fun item hitem j hj hpending =>
          hkept.settled_of_listed hdecided hvain hi hitem hj ⟨hpending, hwaiting j hpending⟩) h
    · by_contra hnot
      obtain ⟨j, -, hpending, hopen⟩ := hgoOn ⟨i, hi, hdeferred, fun h => hnot (.inr (.inr h))⟩
      exact hopen (hwaiting j hpending)
    · exact .inr (.inr h)
  | answers hkept hdecided =>
    rcases hkept.decided i hi (hdecided i hi) with h | h | ⟨h, -⟩ | h
    · exact .inl h
    · exact settled_of_result hnone hi (hkept.waiting rfl i)
        (fun item hitem j hj => hkept.settled rfl i hi item hitem j hj) h
    · cases h
    · exact .inr (.inr h)
  | gaveUp before heq hkept hfinal =>
    subst heq
    obtain ⟨k, hk, hfailure, hcounted, -⟩ := counted_of_final hkept hfinal
    have hnot := hnone k hk hfailure
    rw [show counted input (before.deferRemaining input.challengeCount) k = counted input before k
      from rfl, hcounted] at hnot
    cases hnot

/-- **A careful exchange that succeeds has settled every challenge.** -/
theorem settled_of_run {events : List Event} {calls : List Call}
    (hrun : Run (step input) (Careful input (Orderly input)) (start input) events
      ⟨calls, .ended (some s)⟩) (hsuccess : Succeeds input s) :
    ∀ i < input.challengeCount, Settled input s i := by
  have hend : AtEnd input (Orderly input) s := phaseKeeps_run (fun s h hnone => (h hnone).1) hrun
  exact fun i hi => hend.settled (fun _ h => h) hsuccess hi

/-- A solved captcha excuses the second challenge, that was deferred until it is solved. -/
theorem sound_of_solved_captcha : ∃ events calls s,
    Run (step captchaFirst) (Careful captchaFirst (Orderly captchaFirst)) (start captchaFirst) events
        ⟨calls, .ended (some s)⟩ ∧
      s.deferred 1 = true ∧ Succeeds captchaFirst s ∧
      ∀ i < captchaFirst.challengeCount, Settled captchaFirst s i := by
  obtain ⟨calls, s, hexec, hdeferred, hsuccess⟩ : ∃ calls s,
      execOk (step captchaFirst) (Careful captchaFirst (Orderly captchaFirst)) (start captchaFirst)
          -- the captcha is called and the second challenge is deferred; the answer is right
          [.goOn, .outcome (some (.pending ⟨"2 + 2", "text/plain", none⟩)), .goOn, .goOn, .goOn,
            .goOn, .goOn, .verified (some fun _ => .success none none), .goOn, .goOn, .goOn, .goOn] =
        some ⟨calls, .ended (some s)⟩ ∧ s.deferred 1 = true ∧ Succeeds captchaFirst s :=
    ⟨_, _, rfl, rfl, _, rfl, rfl⟩
  have hrun := Run.of_execOk hexec
  exact ⟨_, calls, s, hrun, hdeferred, hsuccess, settled_of_run hrun hsuccess⟩

/-- Three challenges of which the first is interactive and the other two excuse each other and the
first. -/
def mutualExcludes : Input :=
  exchangeOf
    [[{ challenges := some [1] }], [{ challenges := some [0] }], [{ challenges := some [0] }]]
    [.pending ⟨"2 + 2", "text/plain", none⟩, .result (.success none none),
      .result (.failure "not allowed" none)]
    (.failure "wrong answer" none)

/-- **A challenge is never run and the exchange succeeds.**  The first challenge has to be answered,
so the third, which it would excuse, is deferred; the second succeeds and excuses the first, and
nothing is left that anyone waits for. -/
theorem deferred_never_run : ∃ ended, getChallengeVerification mutualExcludes = .ok ended ∧
    ended.challengeSuccess = true ∧
      ¬ ∀ i < mutualExcludes.challengeCount, Settled mutualExcludes ended.final i := by
  refine ⟨_, rfl, rfl, fun h => ?_⟩
  rcases h 2 (by decide) with h | h | ⟨item, hmem, hdeps, hall⟩
  · cases h
  · cases h
  · cases List.mem_singleton.1 hmem
    have hfirst := hall 0 (by decide)
    cases hfirst

end Runs

end Scheduling
end Challenges
end Pkc

import Pkc.Challenges.Soundness

/-!
# When a rejection is final

An exchange that rejects a publication should do so for a challenge whose failure nothing excuses
any more, whatever becomes of the challenges that are pending or deferred at that moment.

* `StillOpen` are the challenges whose outcome is open at the end of an exchange, and `Possible` the
  results they may still lead to.
* `Justified` is what a rejection should be: it names the failures that are not excused, one of them
  is excused by no possible results, and so no possible results lead to a success.
* The classification of the request reads the slot of a deferred challenge as one of a challenge
  that failed.  `Patient` is a progress in which no failure depends on such a slot, and
  `justified_of_run` proves that a run whose loop ends in one is justified if it rejects.
-/

set_option autoImplicit false

namespace Pkc
namespace Challenges
namespace Scheduling

open Runs

section Rejections

variable {input : Input} {s : Progress} {c : Classification}

/-! ## What may still become of an exchange -/

/-- The outcome of a challenge is open: it is pending, or it is deferred and was not run.  A
deferred challenge that is excused by now will not be run. -/
def StillOpen (input : Input) (s : Progress) (j : Nat) : Prop :=
  isPending (s.results j) = true ∨
    s.deferred j = true ∧ s.results j = none ∧ ¬ Excused input s.results j

/-- Results that differ at open challenges only. -/
def Possible (input : Input) (s : Progress) (results : Results) : Prop :=
  ∀ j, ¬ StillOpen input s j → results j = s.results j

/-- What a rejection should be. -/
structure Justified (input : Input) (s : Progress) (challengeErrors : List (Nat × String)) :
    Prop where
  /-- It names the challenges that failed and are not excluded. -/
  names : ∀ i, i ∈ challengeErrors.map Prod.fst ↔ i < input.challengeCount ∧
    isFailure (s.results i) = true ∧ ¬ Excused input s.results i ∧
      ¬ ExcusedByPending input s.results i
  /-- The failure of one of them is final. -/
  final : ∃ i ∈ challengeErrors.map Prod.fst, ∀ results, Possible input s results →
    ¬ Excused input results i
  /-- When all challenges are run, a failure is counted, too. -/
  rejected : ∀ results, Possible input s results → ∃ i < input.challengeCount,
    isFailure (results i) = true ∧ counted input { s with results := results } i = true

/-! ## Patient exchanges -/

/-- The item lists a deferred challenge that nothing excuses, and otherwise challenges that
succeeded, wait for their answers or are deferred. -/
def WaitsForDeferred (input : Input) (s : Progress) (item : Exclude) : Prop :=
  (∃ j ∈ item.deps, s.deferred j = true ∧ ¬ Excused input s.results j) ∧
    ∀ j ∈ item.deps,
      isSuccess (s.results j) = true ∨ isPending (s.results j) = true ∨ s.deferred j = true

/-- No item of a failure that is counted waits for a deferred challenge. -/
def FailuresWaitForNobody (input : Input) (s : Progress) : Prop :=
  ∀ i < input.challengeCount, isFailure (s.results i) = true → counted input s i = true →
    ∀ item ∈ input.itemsOf i, ¬ WaitsForDeferred input s item

/-- How the loop of the request should end. -/
def Patient (input : Input) (s : Progress) : Prop :=
  (NoFailure input s → NoneWaitsInVain input s) ∧ FailuresWaitForNobody input s

instance (item : Exclude) : Decidable (WaitsForDeferred input s item) :=
  inferInstanceAs (Decidable (_ ∧ _))

instance : Decidable (FailuresWaitForNobody input s) :=
  inferInstanceAs (Decidable (∀ i < input.challengeCount, isFailure (s.results i) = true →
    counted input s i = true → ∀ item ∈ input.itemsOf i, ¬ WaitsForDeferred input s item))

instance : Decidable (Patient input s) :=
  inferInstanceAs (Decidable
    ((NoFailure input s → NoneWaitsInVain input s) ∧ FailuresWaitForNobody input s))

/-! ## Final failures -/

theorem mem_challengeErrors (hclassify : classify input s (List.range input.challengeCount) {} = .ok c)
    {i : Nat} : i ∈ c.challengeErrors.map Prod.fst ↔
      i < input.challengeCount ∧ counted input s i = true ∧ isFailure (s.results i) = true := by
  rw [(classify_eq hclassify).1, List.map_nil, List.nil_append, List.mem_filter, List.mem_range,
    Bool.and_eq_true]

/-- A failure is counted if it is excused neither by successes nor by pending challenges. -/
theorem counted_iff_not_excused {i : Nat} (hfailure : isFailure (s.results i) = true) :
    counted input s i = true ↔
      ¬ Excused input s.results i ∧ ¬ ExcusedByPending input s.results i := by
  constructor
  · intro hcounted
    rw [counted_iff_of_failure hfailure] at hcounted
    constructor
    · rintro ⟨item, hitem, hdeps, hall⟩
      obtain ⟨j, hj, hsuccess, -⟩ := hcounted item hitem hdeps
      rw [hall j hj] at hsuccess
      cases hsuccess
    · rintro ⟨item, hitem, ⟨j, hj, -⟩, hall⟩
      obtain ⟨k, hk, hsuccess, hpending⟩ := hcounted item hitem (List.ne_nil_of_mem hj)
      rcases hall k hk with h | h
      · rw [h] at hsuccess
        cases hsuccess
      · rw [h] at hpending
        cases hpending
  · rintro ⟨hexcused, hbyPending⟩
    rw [← Bool.not_eq_false]
    intro hcounted
    rcases excused_of_not_counted (isSome_of_isFailure hfailure) hcounted with h | h
    · exact hexcused h
    · exact hbyPending h

theorem not_stillOpen_of_failure {i : Nat} (hfailure : isFailure (s.results i) = true) :
    ¬ StillOpen input s i := by
  rintro (hpending | ⟨-, hnone, -⟩)
  · obtain ⟨challenge, hresult⟩ := pending_of_isPending hpending
    rw [hresult] at hfailure
    cases hfailure
  · rw [hnone] at hfailure
    cases hfailure

/-- Every item of the challenge lists one that did not succeed, and whose outcome is known. -/
def Hopeless (input : Input) (s : Progress) (i : Nat) : Prop :=
  ∀ item ∈ input.itemsOf i, item.deps ≠ [] →
    ∃ j ∈ item.deps, isSuccess (s.results j) = false ∧ ¬ StillOpen input s j

/-- No possible results excuse a hopeless challenge. -/
theorem Hopeless.not_excused {i : Nat} (h : Hopeless input s i) {results : Results}
    (hpossible : Possible input s results) : ¬ Excused input results i := by
  rintro ⟨item, hitem, hdeps, hall⟩
  obtain ⟨j, hj, hfailed, hclosed⟩ := h item hitem hdeps
  have hsuccess := hall j hj
  rw [hpossible j hclosed, hfailed] at hsuccess
  cases hsuccess

/-- The failure of a hopeless challenge is counted with any possible results. -/
theorem Hopeless.counted {i : Nat} (h : Hopeless input s i)
    (hfailure : isFailure (s.results i) = true) {results : Results}
    (hpossible : Possible input s results) : isFailure (results i) = true ∧
      Challenges.counted input { s with results := results } i = true := by
  have hresult : isFailure (results i) = true := by
    rwa [hpossible i (not_stillOpen_of_failure hfailure)]
  refine ⟨hresult, (counted_iff_of_failure hresult).2 fun item hitem hdeps => ?_⟩
  obtain ⟨j, hj, hfailed, hclosed⟩ := h item hitem hdeps
  have hsame : results j = s.results j := hpossible j hclosed
  refine ⟨j, hj, (congrArg isSuccess hsame).trans hfailed, ?_⟩
  rw [← Bool.not_eq_true]
  exact fun hpending => hclosed (.inl ((congrArg isPending hsame).symm.trans hpending))

/-- **A rejection with a hopeless failure is justified.** -/
theorem justified_of_hopeless {i : Nat}
    (hclassify : classify input s (List.range input.challengeCount) {} = .ok c)
    (hi : i < input.challengeCount) (hfailure : isFailure (s.results i) = true)
    (h : Hopeless input s i) : Justified input s c.challengeErrors := by
  have hself : Possible input s s.results := fun _ _ => rfl
  refine ⟨fun j => ?_, ⟨i, ?_, fun results => h.not_excused⟩, fun results hpossible =>
    ⟨i, hi, h.counted hfailure hpossible⟩⟩
  · rw [mem_challengeErrors hclassify]
    constructor
    · rintro ⟨hj, hjcounted, hjfailure⟩
      exact ⟨hj, hjfailure, (counted_iff_not_excused hjfailure).1 hjcounted⟩
    · rintro ⟨hj, hjfailure, hjexcused⟩
      exact ⟨hj, (counted_iff_not_excused hjfailure).2 hjexcused, hjfailure⟩
  · exact (mem_challengeErrors hclassify).2 ⟨hi, (h.counted hfailure hself).2, hfailure⟩

/-- When the answers are there, a decided challenge that was deferred has a result or is excused. -/
theorem Kept.not_stillOpen {j : Nat} (h : Kept input false s)
    (hdecided : j < input.challengeCount → s.decided j = true)
    (hpending : isPending (s.results j) = false) : ¬ StillOpen input s j := by
  rintro (hpending' | ⟨hdeferred, hnone, hopen⟩)
  · rw [hpending] at hpending'
    cases hpending'
  · obtain ⟨hj, hincluded⟩ := h.deferred j hdeferred
    rcases h.decided j hj (hdecided hj) with hexcluded | hresult | ⟨hat, -⟩ | hexcused
    · rw [hincluded] at hexcluded
      cases hexcluded
    · rw [hnone] at hresult
      cases hresult
    · cases hat
    · exact hopen hexcused

/-- A counted failure of a patient request is hopeless. -/
theorem hopeless_of_patient {i : Nat} (h : FailuresWaitForNobody input s)
    (hi : i < input.challengeCount) (hfailure : isFailure (s.results i) = true)
    (hcounted : Challenges.counted input s i = true) : Hopeless input s i := by
  intro item hitem hdeps
  have hwaits := h i hi hfailure hcounted item hitem
  by_cases hlisted : ∃ j ∈ item.deps, s.deferred j = true ∧ ¬ Excused input s.results j
  · obtain ⟨j, hj, hout⟩ : ∃ j ∈ item.deps,
        ¬ (isSuccess (s.results j) = true ∨ isPending (s.results j) = true ∨ s.deferred j = true) := by
      by_contra hnone
      exact hwaits ⟨hlisted, fun j hj => by_contra fun hout => hnone ⟨j, hj, hout⟩⟩
    rw [not_or, not_or] at hout
    refine ⟨j, hj, Bool.not_eq_true _ ▸ hout.1, ?_⟩
    rintro (hpending | ⟨hdeferred, -⟩)
    · exact hout.2.1 hpending
    · exact hout.2.2 hdeferred
  · obtain ⟨j, hj, hfailed, hpending⟩ :=
      (counted_iff_of_failure hfailure).1 hcounted item hitem hdeps
    refine ⟨j, hj, hfailed, ?_⟩
    rintro (hpending' | ⟨hdeferred, -, hopen⟩)
    · rw [hpending] at hpending'
      cases hpending'
    · exact hlisted ⟨j, hj, hdeferred, hopen⟩

end Rejections

/-! ## Two rejections -/

/-- The first challenge fails and lists the last one, which is deferred: it lists the second one,
which is pending, and so is the third. -/
def waitsForDeferred : Input :=
  exchangeOf
    [[{ challenges := some [3] }],
      [{ challenges := some [0] }, { challenges := some [2] }],
      [{ challenges := some [0] }, { challenges := some [1] }],
      [{ challenges := some [1] }]]
    [.result (.failure "not allowed" none), .pending ⟨"2 + 2", "text/plain", none⟩,
      .pending ⟨"3 + 3", "text/plain", none⟩, .result (.success none none)]
    (.success none none)

end Scheduling
end Challenges
end Pkc

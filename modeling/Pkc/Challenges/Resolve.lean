import Mathlib.Data.Finset.Card
import Mathlib.Data.Finset.Range
import Pkc.Challenges.Exchange
import Pkc.Publications.LifecycleGate

/-!
# The loop and the classification

The two functions of the exchange have a loop and a classification in common.

* `Excused` is a challenge with an exclude item whose listed challenges all succeeded.  The loop
  excludes a challenge for such an item, and defers it for one that lists a pending challenge.
* A pass of the loop changes nothing, or it decides a challenge (`pass_cases`).
* A classification lists the challenges that are `counted`: no item of theirs excuses the result
  they have (`classify_eq`).
-/

set_option autoImplicit false

namespace Pkc
namespace Challenges

section Resolve

variable {input : Input} {s t : Progress}

/-! ## The three shapes of a result -/

theorem isPending_of_isSuccess {r : Option Outcome} (h : isSuccess r = true) :
    isPending r = false := by
  rcases r with _ | ⟨_ | _⟩ | _ <;> trivial

theorem isPending_of_isFailure {r : Option Outcome} (h : isFailure r = true) :
    isPending r = false := by
  rcases r with _ | ⟨_ | _⟩ | _ <;> trivial

theorem isSuccess_of_isFailure {r : Option Outcome} (h : isFailure r = true) :
    isSuccess r = false := by
  rcases r with _ | ⟨_ | _⟩ | _ <;> trivial

theorem pending_of_isPending {r : Option Outcome} (h : isPending r = true) :
    ∃ challenge, r = some (.pending challenge) := by
  rcases r with _ | ⟨_ | _⟩ | challenge
  · cases h
  · cases h
  · cases h
  · exact ⟨challenge, rfl⟩

theorem isSome_of_isPending {r : Option Outcome} (h : isPending r = true) : r.isSome = true := by
  rcases r with _ | _ <;> trivial

theorem isSome_of_isSuccess {r : Option Outcome} (h : isSuccess r = true) : r.isSome = true := by
  rcases r with _ | _ <;> trivial

theorem isSome_of_isFailure {r : Option Outcome} (h : isFailure r = true) : r.isSome = true := by
  rcases r with _ | _ <;> trivial

theorem success_or_failure_or_pending {r : Option Outcome} (h : r.isSome = true) :
    isSuccess r = true ∨ isFailure r = true ∨ isPending r = true := by
  rcases r with _ | ⟨_ | _⟩ | _
  · cases h
  · exact .inl rfl
  · exact .inr (.inl rfl)
  · exact .inr (.inr rfl)

/-! ## Excused challenges -/

/-- All challenges that one of the items of `i` lists succeeded. -/
def Excused (input : Input) (results : Results) (i : Nat) : Prop :=
  ∃ item ∈ input.itemsOf i, item.deps ≠ [] ∧ ∀ j ∈ item.deps, isSuccess (results j) = true

instance (results : Results) (i : Nat) : Decidable (Excused input results i) :=
  inferInstanceAs (Decidable (∃ item ∈ input.itemsOf i, item.deps ≠ [] ∧
    ∀ j ∈ item.deps, isSuccess (results j) = true))

/-- A challenge that succeeded stays one, so what it excuses stays excused. -/
theorem Excused.mono {r r' : Results} {i : Nat}
    (hmono : ∀ j, isSuccess (r j) = true → isSuccess (r' j) = true) (h : Excused input r i) :
    Excused input r' i := by
  obtain ⟨item, hmem, hdeps, hall⟩ := h
  exact ⟨item, hmem, hdeps, fun j hj => hmono j (hall j hj)⟩

/-- A challenge is only excluded for an item whose challenges all succeeded. -/
theorem excused_of_evaluateItems {i : Nat} : ∀ {items : List Exclude} {evaluable anyDefer : Bool},
    evaluateItems input s i items evaluable anyDefer = .exclude →
    ∃ item ∈ items, item.deps ≠ [] ∧ ∀ j ∈ item.deps, isSuccess (s.results j) = true
  | [], evaluable, anyDefer, h => by
    rw [evaluateItems] at h
    cases anyDefer <;> cases evaluable <;> cases h
  | item :: items, evaluable, anyDefer, h => by
    have hrest : ∀ {evaluable anyDefer : Bool},
        evaluateItems input s i items evaluable anyDefer = .exclude →
        ∃ item' ∈ item :: items, item'.deps ≠ [] ∧
          ∀ j ∈ item'.deps, isSuccess (s.results j) = true := by
      intro evaluable anyDefer h
      obtain ⟨item', hmem, hitem⟩ := excused_of_evaluateItems h
      exact ⟨item', List.mem_cons_of_mem _ hmem, hitem⟩
    rw [evaluateItems] at h
    split at h
    · exact hrest h
    · rename_i hdeps
      split at h
      · exact hrest h
      · split at h
        · exact hrest h
        · rename_i hresults
          split at h
          · -- no challenge of the item is pending, so all of them succeeded
            rename_i hpending
            refine ⟨item, List.mem_cons_self, hdeps, fun j hj => ?_⟩
            have hj' : isPending (s.results j) = false := by
              rw [List.filter_eq_nil_iff] at hpending
              simpa using hpending j hj
            simp only [List.any_eq_true, not_exists, not_and, Bool.not_eq_true',
              Bool.not_eq_false] at hresults
            have hor := hresults j hj
            rwa [hj', Bool.or_false] at hor
          · split at h
            · exact hrest h
            · exact hrest h

/-- A challenge is only deferred for an item that lists a pending one. -/
theorem pending_of_evaluateItems {i : Nat} : ∀ {items : List Exclude} {evaluable anyDefer : Bool},
    evaluateItems input s i items evaluable anyDefer = .defer →
    anyDefer = true ∨ ∃ item ∈ items, ∃ j ∈ item.deps, isPending (s.results j) = true
  | [], evaluable, anyDefer, h => by
    rw [evaluateItems] at h
    cases anyDefer
    · cases evaluable <;> cases h
    · exact .inl rfl
  | item :: items, evaluable, anyDefer, h => by
    have hrest : ∀ {evaluable : Bool}, evaluateItems input s i items evaluable anyDefer = .defer →
        anyDefer = true ∨
          ∃ item' ∈ item :: items, ∃ j ∈ item'.deps, isPending (s.results j) = true := by
      intro evaluable h
      refine (pending_of_evaluateItems h).imp_right ?_
      rintro ⟨item', hmem, hitem⟩
      exact ⟨item', List.mem_cons_of_mem _ hmem, hitem⟩
    rw [evaluateItems] at h
    split at h
    · exact hrest h
    · split at h
      · exact hrest h
      · split at h
        · exact hrest h
        · split at h
          · cases h
          · rename_i hpending
            split at h
            · exact hrest h
            · obtain ⟨j, hj⟩ := List.exists_mem_of_ne_nil _ hpending
              obtain ⟨hmem, hj⟩ := List.mem_filter.1 hj
              exact .inr ⟨item, List.mem_cons_self, j, hmem, hj⟩

/-! ## Undecided challenges -/

/-- The challenges that are not decided yet. -/
def undecided (input : Input) (s : Progress) : Finset Nat :=
  (Finset.range input.challengeCount).filter fun i => s.decided i = false

theorem mem_undecided {i : Nat} :
    i ∈ undecided input s ↔ i < input.challengeCount ∧ s.decided i = false := by
  rw [undecided, Finset.mem_filter, Finset.mem_range]

theorem undecided_update {i : Nat} (h : t.decided = Function.update s.decided i true) :
    undecided input t = (undecided input s).erase i := by
  ext j
  rw [Finset.mem_erase, mem_undecided, mem_undecided, h]
  by_cases hj : j = i
  · subst hj
    simp
  · rw [Function.update_of_ne hj]
    simp [hj]

/-- Looking at a challenge does nothing, or decides it. -/
theorem visit_cases {i : Nat} {progress : Bool} (hi : i < input.challengeCount)
    (h : visit input s i = .ok (t, progress)) :
    (t = s ∧ progress = false) ∨ (progress = true ∧ undecided input t ⊂ undecided input s) := by
  rw [visit] at h
  split at h
  · cases h
    exact .inl ⟨rfl, rfl⟩
  · rename_i hdecided
    rw [Bool.not_eq_true] at hdecided
    have hsub : ∀ t : Progress, t.decided = Function.update s.decided i true →
        undecided input t ⊂ undecided input s := by
      intro t ht
      rw [undecided_update ht]
      exact Finset.erase_ssubset (mem_undecided.2 ⟨hi, hdecided⟩)
    split at h
    · cases h
      exact .inl ⟨rfl, rfl⟩
    · cases h
      exact .inr ⟨rfl, hsub _ rfl⟩
    · cases h
      exact .inr ⟨rfl, hsub _ rfl⟩
    · cases hcall : callGetChallenge input i with
      | error e =>
        rw [hcall] at h
        cases h
      | ok outcome =>
        rw [hcall] at h
        cases h
        exact .inr ⟨rfl, hsub _ rfl⟩

/-- A pass does nothing, or decides a challenge. -/
theorem pass_cases : ∀ {indices : List Nat} {s t : Progress} {progress : Bool},
    (∀ i ∈ indices, i < input.challengeCount) → pass input indices s = .ok (t, progress) →
    (t = s ∧ progress = false) ∨
      (progress = true ∧ undecided input t ⊂ undecided input s)
  | [], s, t, progress, _, h => by
    cases h
    exact .inl ⟨rfl, rfl⟩
  | i :: indices, s, t, progress, hi, h => by
    rw [pass] at h
    cases hvisit : visit input s i with
    | error e =>
      rw [hvisit] at h
      cases h
    | ok first =>
      obtain ⟨u, progress₁⟩ := first
      simp only [hvisit] at h
      cases hpass : pass input indices u with
      | error e =>
        rw [hpass] at h
        cases h
      | ok last =>
        obtain ⟨v, progress₂⟩ := last
        rw [hpass] at h
        cases h
        have hrest := pass_cases (fun j hj => hi j (List.mem_cons_of_mem _ hj)) hpass
        rcases visit_cases (hi i List.mem_cons_self) hvisit with
          ⟨rfl, rfl⟩ | ⟨rfl, hlt⟩
        · rcases hrest with ⟨rfl, rfl⟩ | ⟨rfl, hlt⟩
          · exact .inl ⟨rfl, rfl⟩
          · exact .inr ⟨rfl, hlt⟩
        · rcases hrest with ⟨rfl, rfl⟩ | ⟨rfl, hlt'⟩
          · exact .inr ⟨rfl, hlt⟩
          · exact .inr ⟨rfl, hlt'.trans hlt⟩

theorem mem_of_firstUndecided {i : Nat} (h : s.firstUndecided input.challengeCount = some i) :
    i ∈ undecided input s := by
  rw [Progress.firstUndecided] at h
  refine mem_undecided.2 ⟨List.mem_range.1 (List.mem_of_find?_eq_some h), ?_⟩
  simpa using List.find?_some h

theorem undecided_of_firstUndecided (h : s.firstUndecided input.challengeCount = none) :
    undecided input s = ∅ := by
  rw [Progress.firstUndecided, List.find?_eq_none] at h
  rw [Finset.eq_empty_iff_forall_notMem]
  intro i hi
  obtain ⟨hlt, hdecided⟩ := mem_undecided.1 hi
  exact h i (List.mem_range.2 hlt) (by simp [hdecided])

/-- A loop with a round for each challenge and one more has rounds enough. -/
theorem card_undecided_lt : (undecided input s).card < input.challengeCount + 1 := by
  have hcard : (undecided input s).card ≤ (Finset.range input.challengeCount).card :=
    Finset.card_le_card (Finset.filter_subset _ _)
  rw [Finset.card_range] at hcard
  omega

theorem lt_of_excludes {i : Nat} (h : (input.excludes i).shouldExclude = true) :
    i < input.challengeCount := by
  by_contra hge
  rw [Input.excludes, List.getElem?_eq_none (not_lt.1 hge)] at h
  cases h

/-! ## What a classification finds -/

/-- The challenge is counted: it has a result that no item of it excuses. -/
def counted (input : Input) (s : Progress) (i : Nat) : Bool :=
  match s.results i with
  | none => false
  | some outcome => !shouldExcludeChallengeSuccess input s i outcome

theorem classifyIndex_eq {i : Nat} {c c' : Classification}
    (h : classifyIndex input s i c = .ok c') :
    c'.challengeErrors.map Prod.fst = c.challengeErrors.map Prod.fst ++
        (if counted input s i && isFailure (s.results i) then [i] else []) ∧
      c'.pendingChallenges.map Prod.fst = c.pendingChallenges.map Prod.fst ++
        (if counted input s i && isPending (s.results i) then [i] else []) ∧
      c'.pendingApprovalSuccess = (c.pendingApprovalSuccess ||
        (counted input s i && isSuccess (s.results i) && input.pendingApproval i)) := by
  rw [classifyIndex] at h
  cases hresult : s.results i with
  | none =>
    rw [hresult] at h
    cases h
    simp [isFailure, isPending, isSuccess]
  | some outcome =>
    simp only [hresult] at h
    split at h
    · rename_i hexcluded
      cases h
      simp [counted, hresult, hexcluded]
    · rename_i hcounted
      have hcounted' : counted input s i = true := by
        simp [counted, hresult, hcounted]
      cases outcome with
      | pending challenge =>
        cases h
        simp [hcounted', isFailure, isPending, isSuccess]
      | result r =>
        simp only at h
        split at h
        · cases h
        · cases r with
          | failure error reason =>
            cases h
            simp [hcounted', isFailure, isPending, isSuccess]
          | success comment commentUpdate =>
            cases h
            simp [hcounted', isFailure, isPending, isSuccess]

/-- A classification lists the failures and the pending challenges that are counted, and asks for an
approval if a success is that has to be approved. -/
theorem classify_eq : ∀ {indices : List Nat} {c c' : Classification},
    classify input s indices c = .ok c' →
    c'.challengeErrors.map Prod.fst = c.challengeErrors.map Prod.fst ++
        indices.filter (fun i => counted input s i && isFailure (s.results i)) ∧
      c'.pendingChallenges.map Prod.fst = c.pendingChallenges.map Prod.fst ++
        indices.filter (fun i => counted input s i && isPending (s.results i)) ∧
      c'.pendingApprovalSuccess = (c.pendingApprovalSuccess || indices.any fun i =>
        counted input s i && isSuccess (s.results i) && input.pendingApproval i)
  | [], c, c', h => by
    cases h
    simp
  | i :: indices, c, c', h => by
    rw [classify] at h
    cases hfirst : classifyIndex input s i c with
    | error e =>
      rw [hfirst] at h
      cases h
    | ok d =>
      simp only [hfirst] at h
      obtain ⟨herrors, hpendings, happroval⟩ := classifyIndex_eq hfirst
      obtain ⟨herrors', hpendings', happroval'⟩ := classify_eq h
      rw [herrors', hpendings', happroval', herrors, hpendings, happroval, List.append_assoc,
        List.append_assoc, List.filter_cons, List.filter_cons, List.any_cons, Bool.or_assoc]
      refine ⟨?_, ?_, rfl⟩
      · split <;> rfl
      · split <;> rfl

/-- A pending challenge that is not counted is excused. -/
theorem excused_of_pending {i : Nat} (hpending : isPending (s.results i) = true)
    (hcounted : counted input s i = false) : Excused input s.results i := by
  rw [counted] at hcounted
  cases hresult : s.results i with
  | none =>
    rw [hresult] at hpending
    cases hpending
  | some outcome =>
    simp only [hresult, Bool.not_eq_false'] at hcounted
    rw [shouldExcludeChallengeSuccess, List.any_eq_true] at hcounted
    obtain ⟨item, hmem, hitem⟩ := hcounted
    rw [← hresult, hpending] at hitem
    simp only [ne_eq, Bool.not_true, Bool.and_false, Bool.or_false, Bool.and_eq_true,
      decide_eq_true_eq, List.all_eq_true] at hitem
    exact ⟨item, hmem, hitem.1, hitem.2⟩

/-- An item of the challenge lists a challenge that is still pending, and otherwise only
challenges that succeeded. -/
def ExcusedByPending (input : Input) (results : Results) (i : Nat) : Prop :=
  ∃ item ∈ input.itemsOf i, (∃ j ∈ item.deps, isPending (results j) = true) ∧
    ∀ j ∈ item.deps, isSuccess (results j) = true ∨ isPending (results j) = true

/-- A result that is not counted is excused, or an item of its challenge lists a pending one. -/
theorem excused_of_not_counted {i : Nat} (hsome : (s.results i).isSome = true)
    (hcounted : counted input s i = false) :
    Excused input s.results i ∨ ExcusedByPending input s.results i := by
  rw [counted] at hcounted
  cases hresult : s.results i with
  | none =>
    rw [hresult] at hsome
    cases hsome
  | some outcome =>
    simp only [hresult, Bool.not_eq_false'] at hcounted
    rw [shouldExcludeChallengeSuccess, List.any_eq_true] at hcounted
    obtain ⟨item, hmem, hitem⟩ := hcounted
    rw [Bool.and_eq_true, List.all_eq_true, decide_eq_true_eq] at hitem
    obtain ⟨hdeps, hall⟩ := hitem
    have hor : ∀ j ∈ item.deps,
        isSuccess (s.results j) = true ∨ isPending (s.results j) = true := by
      intro j hj
      exact (Bool.or_eq_true_iff.1 (hall j hj)).imp_right fun h => (Bool.and_eq_true_iff.1 h).1
    by_cases hpending : ∃ j ∈ item.deps, isPending (s.results j) = true
    · exact .inr ⟨item, hmem, hpending, hor⟩
    · refine .inl ⟨item, hmem, hdeps, fun j hj => (hor j hj).resolve_right fun h => ?_⟩
      exact hpending ⟨j, hj, h⟩

/-- A success or a failure is counted if every item lists a challenge that neither succeeded nor is
pending. -/
theorem counted_iff {i : Nat} (hsome : (s.results i).isSome = true)
    (hpending : isPending (s.results i) = false) :
    counted input s i = true ↔ ∀ item ∈ input.itemsOf i, item.deps ≠ [] →
      ∃ j ∈ item.deps, isSuccess (s.results j) = false ∧ isPending (s.results j) = false := by
  rw [counted]
  cases hresult : s.results i with
  | none =>
    rw [hresult] at hsome
    cases hsome
  | some outcome =>
    rw [hresult] at hpending
    simp only [shouldExcludeChallengeSuccess, hpending, Bool.not_false, Bool.and_true,
      Bool.not_eq_true', List.any_eq_false, Bool.and_eq_true, decide_eq_true_eq, not_and,
      List.all_eq_true, not_forall, Bool.or_eq_true, not_or, Bool.not_eq_true, exists_prop]

theorem counted_iff_of_failure {i : Nat} (hfailure : isFailure (s.results i) = true) :
    counted input s i = true ↔ ∀ item ∈ input.itemsOf i, item.deps ≠ [] →
      ∃ j ∈ item.deps, isSuccess (s.results j) = false ∧ isPending (s.results j) = false :=
  counted_iff (isSome_of_isFailure hfailure) (isPending_of_isFailure hfailure)

/-! ## The two functions -/

/-- Verifying the answers changes the results of the pending challenges only. -/
theorem verifyAnswers_eq : ∀ {pendingChallenges : List (Nat × Challenge)}
    {challengeAnswers : List String} {results results' : Results},
    verifyAnswers input pendingChallenges challengeAnswers results = .ok results' → ∀ i,
    (i ∉ pendingChallenges.map Prod.fst ∧ results' i = results i) ∨
      (i ∈ pendingChallenges.map Prod.fst ∧ ∃ r answer, results' i = some (.result r) ∧
        input.behaviour.verify i answer = some r)
  | [], _, _, _, h, i => by
    cases h
    exact .inl ⟨nofun, rfl⟩
  | (k, challenge) :: rest, challengeAnswers, results, results', h, i => by
    rw [verifyAnswers] at h
    split at h
    · cases h
    · rename_i r hr
      rw [List.map_cons, List.mem_cons]
      rcases verifyAnswers_eq h i with ⟨hmem, hsame⟩ | ⟨hmem, hresult⟩
      · by_cases hik : i = k
        · subst hik
          exact .inr ⟨.inl rfl, r, _, by rw [hsame, Function.update_self], hr⟩
        · exact .inl ⟨not_or.2 ⟨hik, hmem⟩, by rw [hsame, Function.update_of_ne hik]⟩
      · exact .inr ⟨.inr hmem, hresult⟩

/-- What the exchange did before it had an outcome at the time of the request. -/
theorem getPendingChallengesOrChallengeVerification_eq_ok {out : PendingOrVerification}
    (hchallenges : input.challenges ≠ none)
    (h : getPendingChallengesOrChallengeVerification input = .ok (out, s)) :
    ∃ c, resolveAtRequest input = .ok s ∧
      classify input s (List.range input.challengeCount) {} = .ok c ∧
      (out = .pending c.pendingChallenges c.pendingApprovalSuccess
          ((List.range input.challengeCount).filter s.deferred) s.results ∨
        out = .verification c.verification ∧
          ¬ (c.challengeErrors = [] ∧ c.pendingChallenges ≠ [])) := by
  rw [getPendingChallengesOrChallengeVerification] at h
  split at h
  · rename_i hnone
    exact absurd hnone hchallenges
  · split at h
    · cases h
    · rename_i progress hresolve
      split at h
      · cases h
      · rename_i c hclassify
        split at h
        · cases h
          exact ⟨c, hresolve, hclassify, .inl rfl⟩
        · rename_i hpending
          cases h
          exact ⟨c, hresolve, hclassify, .inr ⟨rfl, hpending⟩⟩

/-- What the exchange did with the answers before it had a verification. -/
theorem getChallengeVerificationFromChallengeAnswers_eq_ok {t : Progress} {v : Verification}
    {pendingChallenges : List (Nat × Challenge)} {challengeAnswers : List String}
    {deferredChallenges : List Nat} {partialResults : Results}
    (h : getChallengeVerificationFromChallengeAnswers input pendingChallenges challengeAnswers
      deferredChallenges partialResults = .ok (v, t)) :
    ∃ results c, verifyAnswers input pendingChallenges challengeAnswers partialResults =
        .ok results ∧
      resolve input false deferredChallenges (input.challengeCount + 1)
        (answeredProgress input deferredChallenges results) = .ok t ∧
      classify input t (List.range input.challengeCount) {} = .ok c ∧ v = c.verification := by
  rw [getChallengeVerificationFromChallengeAnswers] at h
  split at h
  · cases h
  · rename_i results hverify
    split at h
    · cases h
    · rename_i progress hresolve
      split at h
      · cases h
      · rename_i c hclassify
        cases h
        exact ⟨results, c, hverify, hresolve, hclassify, rfl⟩

end Resolve

/-! ## An exchange -/

/-- A node whose request meets no condition, and an author who answers every challenge. -/
def exchangeOf (excludes : List (List Exclude)) (outcomes : List Outcome)
    (verified : ChallengeResult) : Input where
  env :=
    { Validation.lenient with
      queryAuthorPublicationCounts := fun _ => ⟨0, 0⟩
      getTokensRemaining := fun _ => 0
      getComment := fun _ => none }
  community := Validation.twoPosts
  request := ⟨Validation.upvote "open" [], none, "voter", []⟩
  challenges := some (excludes.map fun items => { exclude := some items })
  behaviour :=
    { getChallenge := fun i => outcomes[i]?
      verify := fun _ _ => some verified
      getChallengeAnswers := fun challenges => some (challenges.map fun _ => "4") }

/-- A captcha, and a second challenge that a solved captcha excuses. -/
def captchaFirst : Input :=
  exchangeOf [[], [{ challenges := some [0] }]]
    [.pending ⟨"2 + 2", "text/plain", none⟩, .result (.failure "not allowed" none)]
    (.success none none)

end Challenges
end Pkc

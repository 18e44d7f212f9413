import Pkc.Exchanges.OneVerdict
import Pkc.Library.Unwinding

/-!
# Forged messages

A message is forged if its signature does not verify or its `challengeRequestId` is not derived from
the key it is signed with.  Its handler never comes further than the check, and should leave the
exchanges of the others as they are.

* `honest` are the ids of the exchanges the messages that are not forged belong to.  `Alike`
  compares a state with that of the run without the forged messages: the entries of honest ids in
  the caches, the verdicts for them and the phases of the handlers of the other messages are the
  same.
* `Undisturbed` is the condition on a step: a forged message names no honest id unless it is a
  duplicate request, and no entry of an honest id is pushed out of a cache to make room for another.
* `Same` adds to `Alike` what has to be known of the run with the forged messages, and is kept by
  every step (`same_forged`, `same_shown`); `forged_leave_alike` is the result over runs, and
  `forged_disturb` has two runs that do not meet the condition.
-/

set_option autoImplicit false

namespace Pkc
namespace Exchanges

open Runs

/-- The actions of the handlers of messages that are not forged, and of time on honest ids. -/
def visible (env : Env) (honest : String → Bool) : Action → Bool
  | .expire _ id => honest id
  | .deliver d | .verified d _ | .parsed d _ | .signatureRefused d _ | .inFlightSettled d _
  | .validated d _ | .challenged d _ | .challengePublished d _ | .answerResumed d | .timedOut d
  | .answersChecked d _ | .stored d _ | .decrypted d _ | .verificationPublished d _ | .throws d =>
    d.signed env

/-- The condition on a step. -/
def Undisturbed (env : Env) (honest : String → Bool) (s : State) : Action → Prop
  | .deliver d =>
    (d.signed env = true → honest d.id = true) ∧
    (d.signed env = false → honest d.id = true →
      d.isRequest = true ∧ s.ongoingChallengeExchanges.has d.id = true) ∧
    (d.isRequest = true → s.ongoingChallengeExchanges.has d.id = false →
      LruCache.Spares 1000 honest s.ongoingChallengeExchanges d.id)
  | .challengePublished d true =>
    LruCache.Spares 1000 honest s.ongoingChallengeExchanges d.id ∧
    LruCache.Spares 1000 honest s.challengeAnswerPromises d.id ∧
    LruCache.Spares 1000 honest s.challengeAnswerResolveReject d.id
  | _ => True

/-- What is left of `s` when the forged messages are taken out of the run. -/
structure Alike (env : Env) (honest : String → Bool) (s s₀ : State) : Prop where
  ongoing : s₀.ongoingChallengeExchanges = s.ongoingChallengeExchanges.restrict honest
  promises : s₀.challengeAnswerPromises = s.challengeAnswerPromises.restrict honest
  resolveReject : s₀.challengeAnswerResolveReject = s.challengeAnswerResolveReject.restrict honest
  localPublishers : s₀.challengeExchangesFromLocalPublishers =
    s.challengeExchangesFromLocalPublishers.filter honest
  inFlight : s₀.inFlightPublicationExchanges = s.inFlightPublicationExchanges
  verifications : s₀.verifications = s.verifications.filter fun v => honest v.challengeRequestId
  phase : ∀ d, d.signed env = true → s₀.phase d = s.phase d

/-- Where the handler of a forged message can be. -/
def Outcast (honest : String → Bool) (d : Delivery) : Phase → Prop
  | .notDelivered | .duplicate | .threw => True
  | .verifying | .publishingVerification none _ _ | .completed => honest d.id = false
  | _ => False

structure Same (env : Env) (honest : String → Bool) (s s₀ : State) : Prop
    extends Alike env honest s s₀ where
  ongoingRoom : s.ongoingChallengeExchanges.length ≤ 1000
  promisesRoom : s.challengeAnswerPromises.length ≤ 1000
  resolveRoom : s.challengeAnswerResolveReject.length ≤ 1000
  registered : ∀ entry ∈ s.challengeAnswerResolveReject, entry.value.signed env = true
  outcast : ∀ d, d.signed env = false → Outcast honest d (s.phase d)
  inside : ∀ d, d.signed env = true → s.phase d ≠ .notDelivered → honest d.id = true

section Operations

variable {env : Env} {honest : String → Bool} {s s₀ : State} {d e : Delivery} {phase : Phase}
  {id : String}

/-! ## The operations of the handlers -/

theorem Same.setPhase (h : Same env honest s s₀) (hid : honest d.id = true)
    (hd : d.signed env = true) : Same env honest (s.setPhase d phase) (s₀.setPhase d phase) :=
  { h with
    phase := by
      intro e he
      by_cases heq : e = d
      · rw [heq, State.phase_setPhase_self, State.phase_setPhase_self]
      · rw [State.phase_setPhase_of_ne _ _ heq, State.phase_setPhase_of_ne _ _ heq]
        exact h.phase e he
    outcast := by
      intro e he
      have hne : e ≠ d := by
        rintro rfl
        rw [hd] at he
        cases he
      rw [State.phase_setPhase_of_ne _ _ hne]
      exact h.outcast e he
    inside := by
      intro e he hdelivered
      by_cases heq : e = d
      · rw [heq]
        exact hid
      · rw [State.phase_setPhase_of_ne _ _ heq] at hdelivered
        exact h.inside e he hdelivered }

/-- The handler of a forged message goes on. -/
theorem Same.setPhase_forged (h : Same env honest s s₀) (hd : d.signed env = false)
    (hphase : Outcast honest d phase) : Same env honest (s.setPhase d phase) s₀ := by
  have hne : ∀ e, e.signed env = true → e ≠ d := by
    rintro e he rfl
    rw [hd] at he
    cases he
  exact
    { h with
      phase := by
        intro e he
        rw [State.phase_setPhase_of_ne _ _ (hne e he)]
        exact h.phase e he
      outcast := by
        intro e he
        by_cases heq : e = d
        · rw [heq, State.phase_setPhase_self]
          exact hphase
        · rw [State.phase_setPhase_of_ne _ _ heq]
          exact h.outcast e he
      inside := by
        intro e he hdelivered
        rw [State.phase_setPhase_of_ne _ _ (hne e he)] at hdelivered
        exact h.inside e he hdelivered }

theorem Same.setOngoing (h : Same env honest s s₀) (hid : honest id = true)
    (hspares : LruCache.Spares 1000 honest s.ongoingChallengeExchanges id) :
    Same env honest (s.setOngoing id) (s₀.setOngoing id) :=
  { h with
    ongoing := by
      rw [State.setOngoing, State.setOngoing, h.ongoing]
      exact (LruCache.restrict_set_of_spares h.ongoingRoom hspares hid).symm
    ongoingRoom := LruCache.length_set_le (by decide) h.ongoingRoom }

theorem Same.setOngoing_forged (h : Same env honest s s₀) (hid : honest id = false)
    (hspares : LruCache.Spares 1000 honest s.ongoingChallengeExchanges id) :
    Same env honest (s.setOngoing id) s₀ :=
  { h with
    ongoing := h.ongoing.trans (LruCache.restrict_set_of_spares_of_not hspares hid).symm
    ongoingRoom := LruCache.length_set_le (by decide) h.ongoingRoom }

theorem Same.cleanUp (h : Same env honest s s₀) :
    Same env honest (s.cleanUpChallengeAnswerPromise id) (s₀.cleanUpChallengeAnswerPromise id) :=
  { h with
    promises := by
      rw [State.cleanUpChallengeAnswerPromise, State.cleanUpChallengeAnswerPromise, h.promises]
      exact LruCache.restrict_delete.symm
    resolveReject := by
      rw [State.cleanUpChallengeAnswerPromise, State.cleanUpChallengeAnswerPromise,
        h.resolveReject]
      exact LruCache.restrict_delete.symm
    localPublishers := by
      rw [State.cleanUpChallengeAnswerPromise, State.cleanUpChallengeAnswerPromise,
        h.localPublishers]
      exact List.filter_comm _ _ _
    promisesRoom := Nat.le_trans LruCache.length_delete_le h.promisesRoom
    resolveRoom := Nat.le_trans LruCache.length_delete_le h.resolveRoom
    registered := fun entry hentry => h.registered entry (LruCache.mem_of_mem_delete hentry) }

theorem Same.cleanUp_forged (h : Same env honest s s₀) (hid : honest id = false) :
    Same env honest (s.cleanUpChallengeAnswerPromise id) s₀ :=
  { h with
    promises := h.promises.trans (LruCache.restrict_delete_of_not hid).symm
    resolveReject := h.resolveReject.trans (LruCache.restrict_delete_of_not hid).symm
    localPublishers := by
      rw [h.localPublishers, State.cleanUpChallengeAnswerPromise, List.filter_filter]
      refine List.filter_congr fun localId _ => ?_
      by_cases hlocal : localId = id
      · simp [hlocal, hid]
      · simp [hlocal]
    promisesRoom := Nat.le_trans LruCache.length_delete_le h.promisesRoom
    resolveRoom := Nat.le_trans LruCache.length_delete_le h.resolveRoom
    registered := fun entry hentry => h.registered entry (LruCache.mem_of_mem_delete hentry) }

theorem Same.releaseExchange (h : Same env honest s s₀) :
    Same env honest (s.releaseExchange id) (s₀.releaseExchange id) :=
  { h.cleanUp with
    ongoing := by
      rw [State.releaseExchange, State.releaseExchange, h.ongoing]
      exact LruCache.restrict_delete.symm
    ongoingRoom := Nat.le_trans LruCache.length_delete_le h.ongoingRoom }

theorem Same.releaseExchange_forged (h : Same env honest s s₀) (hid : honest id = false) :
    Same env honest (s.releaseExchange id) s₀ :=
  { h.cleanUp_forged hid with
    ongoing := h.ongoing.trans (LruCache.restrict_delete_of_not hid).symm
    ongoingRoom := Nat.le_trans LruCache.length_delete_le h.ongoingRoom }

theorem Same.releaseLock {signature : Option String} (h : Same env honest s s₀) :
    Same env honest (s.releaseLock d signature) (s₀.releaseLock d signature) := by
  cases signature with
  | none => exact h
  | some signature =>
    exact
      { h with
        inFlight := by
          rw [State.releaseLock, State.releaseLock, h.inFlight] }

theorem Same.log {verification : Verification} (h : Same env honest s s₀)
    (hid : honest verification.challengeRequestId = true) :
    Same env honest { s with verifications := s.verifications ++ [verification] }
      { s₀ with verifications := s₀.verifications ++ [verification] } :=
  { h with
    verifications := by
      rw [h.verifications, List.filter_append]
      simp [hid] }

theorem Same.log_forged {verification : Verification} (h : Same env honest s s₀)
    (hid : honest verification.challengeRequestId = false) :
    Same env honest { s with verifications := s.verifications ++ [verification] } s₀ :=
  { h with
    verifications := by
      rw [h.verifications, List.filter_append]
      simp [hid] }

/-- The handler of a message that is not forged sees the same publishers as local ones. -/
theorem Same.publishesOverPubsub (h : Same env honest s s₀) (hid : honest d.id = true) :
    s₀.publishesOverPubsub env d = s.publishesOverPubsub env d := by
  have hlocal : d.id ∉ s₀.challengeExchangesFromLocalPublishers ↔
      d.id ∉ s.challengeExchangesFromLocalPublishers := by
    rw [h.localPublishers, List.mem_filter]
    simp [hid]
  rw [State.publishesOverPubsub, State.publishesOverPubsub, decide_eq_decide.2 hlocal]

theorem Same.publishVerification {signature : Option String} {verdict : Verdict}
    (h : Same env honest s s₀) (hid : honest d.id = true) (hd : d.signed env = true) :
    Same env honest (s.publishVerification env d signature verdict)
      (s₀.publishVerification env d signature verdict) := by
  rw [State.publishVerification, State.publishVerification, h.publishesOverPubsub hid]
  exact h.setPhase hid hd

theorem Same.refuseSignature {reason : String} (h : Same env honest s s₀)
    (hid : honest d.id = true) (hd : d.signed env = true) :
    Same env honest (s.refuseSignature env d reason) (s₀.refuseSignature env d reason) := by
  rw [State.refuseSignature, State.refuseSignature, h.publishesOverPubsub hid]
  exact h.setPhase hid hd

theorem Same.decideExchange {signature : String} {result : Verdict} (h : Same env honest s s₀)
    (hid : honest d.id = true) (hd : d.signed env = true) :
    Same env honest (decideExchange env s d signature result)
      (decideExchange env s₀ d signature result) := by
  rw [Exchanges.decideExchange, Exchanges.decideExchange]
  split
  · exact h.setPhase hid hd
  · exact h.publishVerification hid hd

theorem Same.verificationPublished {signature : Option String} {verdict : Verdict}
    {overPubsub : Bool} (h : Same env honest s s₀) (hid : honest d.id = true)
    (hd : d.signed env = true) :
    Same env honest (s.verificationPublished d signature verdict overPubsub)
      (s₀.verificationPublished d signature verdict overPubsub) :=
  (h.log hid).releaseExchange.releaseLock.setPhase hid hd

theorem Same.verificationPublished_forged {verdict : Verdict} {overPubsub : Bool}
    (h : Same env honest s s₀) (hid : honest d.id = false) (hd : d.signed env = false) :
    Same env honest (s.verificationPublished d none verdict overPubsub) s₀ :=
  ((h.log_forged hid).releaseExchange_forged hid).setPhase_forged hd hid

theorem Same.registerAnswerPromise {signature : String} (h : Same env honest s s₀)
    (hid : honest d.id = true) (hd : d.signed env = true)
    (hok : Undisturbed env honest s (.challengePublished d true)) :
    Same env honest (registerAnswerPromise s d signature)
      (registerAnswerPromise s₀ d signature) := by
  obtain ⟨hongoing, hpromises, hresolve⟩ := hok
  refine Same.setPhase ?_ hid hd
  exact
    { h.setOngoing hid hongoing with
      promises := by
        show LruCache.set 1000 s₀.challengeAnswerPromises d.id d = _
        rw [h.promises]
        exact (LruCache.restrict_set_of_spares h.promisesRoom hpromises hid).symm
      resolveReject := by
        show LruCache.set 1000 s₀.challengeAnswerResolveReject d.id d = _
        rw [h.resolveReject]
        exact (LruCache.restrict_set_of_spares h.resolveRoom hresolve hid).symm
      promisesRoom := LruCache.length_set_le (by decide) h.promisesRoom
      resolveRoom := LruCache.length_set_le (by decide) h.resolveRoom
      registered := by
        intro entry hentry
        rcases LruCache.mem_of_mem_set hentry with hold | rfl
        · exact h.registered entry hold
        · exact hd }

theorem Same.readPromise (h : Same env honest s s₀) (hid : honest id = true) :
    Same env honest (s.readPromise id) (s₀.readPromise id) :=
  { h with
    resolveReject := by
      rw [State.readPromise, State.readPromise, h.resolveReject]
      exact (LruCache.restrict_touch hid).symm
    resolveRoom := Nat.le_trans LruCache.length_touch_le h.resolveRoom
    registered := fun entry hentry => h.registered entry (LruCache.mem_of_mem_touch hentry) }

theorem Same.takeAnswers {exchange : Delivery} {signature : String} {answers : Answers}
    (h : Same env honest s s₀) (hid : honest exchange.id = true)
    (hexchange : exchange.signed env = true) :
    Same env honest (s.takeAnswers exchange signature d answers)
      (s₀.takeAnswers exchange signature d answers) := by
  refine Same.setPhase ?_ hid hexchange
  exact { h with }

theorem Same.resolveAnswerPromise {answers : Answers} (h : Same env honest s s₀)
    (hid : honest d.id = true) (hd : d.signed env = true) :
    Same env honest (resolveAnswerPromise s d answers) (resolveAnswerPromise s₀ d answers) := by
  have hlookup : s₀.challengeAnswerResolveReject.lookup d.id =
      s.challengeAnswerResolveReject.lookup d.id := by
    rw [h.resolveReject, LruCache.lookup_restrict hid]
  rw [Exchanges.resolveAnswerPromise, Exchanges.resolveAnswerPromise, hlookup]
  split
  · exact h.setPhase hid hd
  · rename_i exchange hfound
    obtain ⟨entry, hentry, -, rfl⟩ := LruCache.exists_mem_of_lookup hfound
    have hsigned := h.registered entry hentry
    rw [h.phase entry.value hsigned]
    split
    · rename_i signature hwaiting
      have hinside := h.inside entry.value hsigned (by rw [hwaiting]; simp)
      exact ((h.readPromise hid).takeAnswers hinside hsigned).setPhase hid hd
    · exact (h.readPromise hid).setPhase hid hd

theorem Same.registered_expire (h : Same env honest s s₀) :
    ∀ entry ∈ s.challengeAnswerResolveReject.expire id, entry.value.signed env = true := by
  intro entry hentry
  obtain ⟨old, hold, -, hvalue⟩ := LruCache.exists_mem_of_mem_expire hentry
  rw [hvalue]
  exact h.registered old hold

theorem Same.expire {cache : Cache} (h : Same env honest s s₀) :
    Same env honest (s.expire cache id) (s₀.expire cache id) := by
  cases cache with
  | ongoing =>
    exact
      { h with
        ongoing := by
          rw [State.expire, State.expire, h.ongoing]
          exact LruCache.restrict_expire.symm
        ongoingRoom := Nat.le_trans LruCache.length_expire_le h.ongoingRoom }
  | promises =>
    exact
      { h with
        promises := by
          rw [State.expire, State.expire, h.promises]
          exact LruCache.restrict_expire.symm
        promisesRoom := Nat.le_trans LruCache.length_expire_le h.promisesRoom }
  | resolveReject =>
    exact
      { h with
        resolveReject := by
          rw [State.expire, State.expire, h.resolveReject]
          exact LruCache.restrict_expire.symm
        resolveRoom := Nat.le_trans LruCache.length_expire_le h.resolveRoom
        registered := h.registered_expire }

theorem Same.expire_forged {cache : Cache} (h : Same env honest s s₀) (hid : honest id = false) :
    Same env honest (s.expire cache id) s₀ := by
  cases cache with
  | ongoing =>
    exact
      { h with
        ongoing := h.ongoing.trans (LruCache.restrict_expire_of_not hid).symm
        ongoingRoom := Nat.le_trans LruCache.length_expire_le h.ongoingRoom }
  | promises =>
    exact
      { h with
        promises := h.promises.trans (LruCache.restrict_expire_of_not hid).symm
        promisesRoom := Nat.le_trans LruCache.length_expire_le h.promisesRoom }
  | resolveReject =>
    exact
      { h with
        resolveReject := h.resolveReject.trans (LruCache.restrict_expire_of_not hid).symm
        resolveRoom := Nat.le_trans LruCache.length_expire_le h.resolveRoom
        registered := h.registered_expire }

/-! ## A forged message -/

theorem Same.handleChallengeRequest_forged {isLocalPublisher : Bool} (h : Same env honest s s₀)
    (hd : d.signed env = false) (hrequest : d.isRequest = true)
    (hok : Undisturbed env honest s (.deliver d)) :
    Same env honest (handleChallengeRequest (s.deliver d) d isLocalPublisher) s₀ := by
  obtain ⟨-, hduplicate, hspares⟩ := hok
  have hdeliver : Same env honest (s.deliver d) s₀ := { h with }
  rw [handleChallengeRequest]
  split
  · exact hdeliver.setPhase_forged hd trivial
  · rename_i hnew
    have hnew' : s.ongoingChallengeExchanges.has d.id = false := Bool.not_eq_true _ ▸ hnew
    have hid : honest d.id = false := by
      by_contra hhonest
      have hongoing := (hduplicate hd (by simpa using hhonest)).2
      rw [hnew'] at hongoing
      cases hongoing
    refine Same.setPhase_forged (Same.setOngoing_forged ?_ hid (hspares hrequest hnew')) hd hid
    cases isLocalPublisher with
    | false => exact hdeliver
    | true =>
      exact
        { hdeliver with
          localPublishers := h.localPublishers.trans
            (List.filter_cons_of_neg (by simp [hid])).symm }

theorem Same.handleChallengeAnswer_forged (h : Same env honest s s₀) (hd : d.signed env = false)
    (hid : honest d.id = false) :
    Same env honest (handleChallengeAnswer env ((s.recordExchange d).deliver d) d) s₀ := by
  have hdeliver : Same env honest ((s.recordExchange d).deliver d) s₀ := { h with }
  rw [handleChallengeAnswer]
  split
  · exact hdeliver.setPhase_forged hd hid
  · exact hdeliver.setPhase_forged hd hid

/-- The phase of the handler of a forged message in which an action is possible. -/
theorem Same.phase_forged (h : Same env honest s s₀) (hd : d.signed env = false)
    (hphase : s.phase d = phase) : Outcast honest d phase :=
  hphase ▸ h.outcast d hd

/-- **What the handler of a forged message does leaves nothing behind.** -/
theorem same_forged {t : State} {a : Action} (h : Same env honest s s₀)
    (hok : Undisturbed env honest s a) (hvisible : visible env honest a = false)
    (hstep : step env s a = some t) : Same env honest t s₀ := by
  cases a with
  | deliver d =>
    dsimp only [step] at hstep
    split at hstep
    · rename_i isLocalPublisher _ hkind
      cases hstep
      exact h.handleChallengeRequest_forged hvisible (by rw [Delivery.isRequest, hkind]) hok
    · rename_i _ hkind
      have hid : honest d.id = false := by
        by_contra hhonest
        have hrequest := (hok.2.1 hvisible (by simpa using hhonest)).1
        rw [Delivery.isRequest, hkind] at hrequest
        cases hrequest
      cases hstep
      exact h.handleChallengeAnswer_forged hvisible hid
    · cases hstep
  | verified d timestampInRange =>
    simp only [step, verifyChallengeMessage_of_not_signed hvisible] at hstep
    split at hstep
    · rename_i hphase
      have hid : honest d.id = false := h.phase_forged hvisible hphase
      split at hstep
      case h_1 | h_3 => contradiction
      case h_2 =>
        cases hstep
        exact h.setPhase_forged hvisible trivial
      case h_4 =>
        cases hstep
        exact (h.releaseExchange_forged hid).setPhase_forged hvisible trivial
    · cases hstep
  | verificationPublished d ok =>
    dsimp only [step] at hstep
    split at hstep
    · rename_i signature verdict overPubsub hphase
      have hout := h.phase_forged hvisible hphase
      cases signature with
      | some => exact hout.elim
      | none =>
        cases hstep
        exact h.verificationPublished_forged hout hvisible
    · rename_i signature verdict hphase
      have hout := h.phase_forged hvisible hphase
      cases signature with
      | some => exact hout.elim
      | none =>
        cases hstep
        exact h.setPhase_forged hvisible trivial
    · rename_i hphase
      exact (h.phase_forged hvisible hphase).elim
    · rename_i hphase
      exact (h.phase_forged hvisible hphase).elim
    · cases hstep
  | throws d =>
    dsimp only [step] at hstep
    split at hstep
    case h_1 =>
      cases hstep
      exact h.setPhase_forged hvisible trivial
    case h_5 => cases hstep
    all_goals
      rename_i hphase
      exact (h.phase_forged hvisible hphase).elim
  | expire cache id =>
    rw [step, Option.some.injEq] at hstep
    subst hstep
    exact h.expire_forged hvisible
  | _ =>
    -- a handler that is past its check is not that of a forged message
    dsimp only [step] at hstep
    split at hstep
    all_goals first
      | rename_i hphase
        exact (h.phase_forged hvisible hphase).elim
      | cases hstep

/-! ## A message that is not forged -/

theorem Same.handleChallengeRequest {isLocalPublisher : Bool} (h : Same env honest s s₀)
    (hd : d.signed env = true) (hrequest : d.isRequest = true)
    (hok : Undisturbed env honest s (.deliver d)) :
    Same env honest (handleChallengeRequest (s.deliver d) d isLocalPublisher)
      (handleChallengeRequest (s₀.deliver d) d isLocalPublisher) := by
  obtain ⟨hhonest, -, hspares⟩ := hok
  have hid := hhonest hd
  have hdeliver : Same env honest (s.deliver d) (s₀.deliver d) := { h with }
  have hhas : (s₀.deliver d).ongoingChallengeExchanges.has d.id =
      (s.deliver d).ongoingChallengeExchanges.has d.id := by
    rw [hdeliver.ongoing, LruCache.has, LruCache.has, LruCache.lookup_restrict hid]
  rw [Exchanges.handleChallengeRequest, Exchanges.handleChallengeRequest, hhas]
  split
  · exact hdeliver.setPhase hid hd
  · rename_i hnew
    refine Same.setPhase (Same.setOngoing ?_ hid (hspares hrequest (Bool.not_eq_true _ ▸ hnew)))
      hid hd
    cases isLocalPublisher with
    | false => exact hdeliver
    | true =>
      exact
        { hdeliver with
          localPublishers := by
            show d.id :: s₀.challengeExchangesFromLocalPublishers = _
            rw [h.localPublishers]
            exact (List.filter_cons_of_pos hid).symm }

theorem Same.handleChallengeAnswer (h : Same env honest s s₀) (hid : honest d.id = true)
    (hd : d.signed env = true) :
    Same env honest (handleChallengeAnswer env ((s.recordExchange d).deliver d) d)
      (handleChallengeAnswer env ((s₀.recordExchange d).deliver d) d) := by
  have hdeliver : Same env honest ((s.recordExchange d).deliver d)
      ((s₀.recordExchange d).deliver d) := { h with }
  have hhas : ((s₀.recordExchange d).deliver d).ongoingChallengeExchanges.has d.id =
      ((s.recordExchange d).deliver d).ongoingChallengeExchanges.has d.id := by
    rw [hdeliver.ongoing, LruCache.has, LruCache.has, LruCache.lookup_restrict hid]
  rw [Exchanges.handleChallengeAnswer, Exchanges.handleChallengeAnswer, hhas]
  split
  · exact hdeliver.setPhase hid hd
  · exact hdeliver.publishVerification hid hd

/-- Where a handler stands, it stands without the forged messages, and its id is honest. -/
theorem Same.phase_shown (h : Same env honest s s₀) (hd : d.signed env = true)
    (hphase : s.phase d = phase) (hdelivered : phase ≠ .notDelivered) :
    s₀.phase d = phase ∧ honest d.id = true :=
  ⟨(h.phase d hd).trans hphase, h.inside d hd (hphase ▸ hdelivered)⟩

theorem shown_deliver {t : State} (h : Same env honest s s₀)
    (hok : Undisturbed env honest s (.deliver d)) (hd : d.signed env = true)
    (hstep : step env s (.deliver d) = some t) :
    ∃ t₀, step env s₀ (.deliver d) = some t₀ ∧ Same env honest t t₀ := by
  dsimp only [step] at hstep
  split at hstep
  · rename_i isLocalPublisher hphase hkind
    have hphase₀ := (h.phase d hd).trans hphase
    cases hstep
    refine ⟨_, by simp only [step, hphase₀, hkind]; rfl, ?_⟩
    exact h.handleChallengeRequest hd (by rw [Delivery.isRequest, hkind]) hok
  · rename_i hphase hkind
    have hphase₀ := (h.phase d hd).trans hphase
    cases hstep
    refine ⟨_, by simp only [step, hphase₀, hkind]; rfl, ?_⟩
    exact h.handleChallengeAnswer (hok.1 hd) hd
  · cases hstep

theorem shown_verified {t : State} {timestampInRange : Bool} (h : Same env honest s s₀)
    (hd : d.signed env = true) (hstep : step env s (.verified d timestampInRange) = some t) :
    ∃ t₀, step env s₀ (.verified d timestampInRange) = some t₀ ∧ Same env honest t t₀ := by
  dsimp only [step] at hstep ⊢
  split at hstep
  · rename_i hphase
    obtain ⟨hphase₀, hid⟩ := h.phase_shown hd hphase nofun
    rw [hphase₀]
    split at hstep
    all_goals
      cases hstep
    · exact ⟨_, rfl, h.setPhase hid hd⟩
    · exact ⟨_, rfl, h.setPhase hid hd⟩
    · exact ⟨_, rfl, h.setPhase hid hd⟩
    · exact ⟨_, rfl, h.releaseExchange.setPhase hid hd⟩
  · cases hstep

theorem shown_inFlightSettled {t : State} {waitedOut : Bool} (h : Same env honest s s₀)
    (hd : d.signed env = true) (hstep : step env s (.inFlightSettled d waitedOut) = some t) :
    ∃ t₀, step env s₀ (.inFlightSettled d waitedOut) = some t₀ ∧ Same env honest t t₀ := by
  dsimp only [step] at hstep ⊢
  split at hstep
  · rename_i signature hphase
    obtain ⟨hphase₀, hid⟩ := h.phase_shown hd hphase nofun
    rw [hphase₀]
    simp only [h.inFlight]
    split at hstep
    · rename_i hsettled
      cases hstep
      rw [if_pos hsettled]
      refine ⟨_, rfl, Same.setPhase ?_ hid hd⟩
      exact { h with inFlight := rfl }
    · cases hstep
  · cases hstep

/-- **What the handler of another message does, it does without the forged messages.** -/
theorem same_shown {t : State} {a : Action} (h : Same env honest s s₀)
    (hok : Undisturbed env honest s a) (hvisible : visible env honest a = true)
    (hstep : step env s a = some t) : ∃ t₀, step env s₀ a = some t₀ ∧ Same env honest t t₀ := by
  cases a with
  | deliver d => exact shown_deliver h hok hvisible hstep
  | verified d timestampInRange => exact shown_verified h hvisible hstep
  | inFlightSettled d waitedOut => exact shown_inFlightSettled h hvisible hstep
  | expire cache id =>
    rw [step, Option.some.injEq] at hstep
    subst hstep
    exact ⟨_, rfl, h.expire⟩
  | parsed d result =>
    dsimp only [step] at hstep ⊢
    split at hstep
    case h_3 => cases hstep
    all_goals
      rename_i hphase
      obtain ⟨hphase₀, hid⟩ := h.phase_shown hvisible hphase (by simp)
      cases hstep
      rw [hphase₀]
    · exact ⟨_, rfl, h.publishVerification hid hvisible⟩
    · exact ⟨_, rfl, h.setPhase hid hvisible⟩
  | validated d result =>
    dsimp only [step] at hstep ⊢
    split at hstep
    case h_4 => cases hstep
    all_goals
      rename_i hphase
      obtain ⟨hphase₀, hid⟩ := h.phase_shown hvisible hphase (by simp)
      cases hstep
      rw [hphase₀]
    · exact ⟨_, rfl, h.setPhase hid hvisible⟩
    · exact ⟨_, rfl, h.publishVerification hid hvisible⟩
    · exact ⟨_, rfl, h.publishVerification hid hvisible⟩
  | challenged d result =>
    dsimp only [step] at hstep ⊢
    split at hstep
    case h_3 => cases hstep
    all_goals
      rename_i hphase
      obtain ⟨hphase₀, hid⟩ := h.phase_shown hvisible hphase (by simp)
      cases hstep
      rw [hphase₀]
    · exact ⟨_, rfl, h.decideExchange hid hvisible⟩
    · exact ⟨_, rfl, h.setPhase hid hvisible⟩
  | challengePublished d ok =>
    dsimp only [step] at hstep ⊢
    split at hstep
    case h_3 => cases hstep
    all_goals
      rename_i hphase
      obtain ⟨hphase₀, hid⟩ := h.phase_shown hvisible hphase (by simp)
      cases hstep
      rw [hphase₀]
    · exact ⟨_, rfl, h.registerAnswerPromise hid hvisible hok⟩
    · exact ⟨_, rfl, h.decideExchange hid hvisible⟩
  | answerResumed d =>
    dsimp only [step] at hstep ⊢
    split at hstep
    case h_2 => cases hstep
    all_goals
      rename_i hphase
      obtain ⟨hphase₀, hid⟩ := h.phase_shown hvisible hphase (by simp)
      cases hstep
      rw [hphase₀]
    · exact ⟨_, rfl, h.cleanUp.setPhase hid hvisible⟩
  | timedOut d =>
    dsimp only [step] at hstep ⊢
    split at hstep
    case h_2 => cases hstep
    all_goals
      rename_i hphase
      obtain ⟨hphase₀, hid⟩ := h.phase_shown hvisible hphase (by simp)
      cases hstep
      rw [hphase₀]
    · exact ⟨_, rfl, h.cleanUp.decideExchange hid hvisible⟩
  | answersChecked d result =>
    dsimp only [step] at hstep ⊢
    split at hstep
    case h_2 => cases hstep
    all_goals
      rename_i hphase
      obtain ⟨hphase₀, hid⟩ := h.phase_shown hvisible hphase (by simp)
      cases hstep
      rw [hphase₀]
    · exact ⟨_, rfl, h.decideExchange hid hvisible⟩
  | stored d result =>
    dsimp only [step] at hstep ⊢
    split at hstep
    case h_4 => cases hstep
    all_goals
      rename_i hphase
      obtain ⟨hphase₀, hid⟩ := h.phase_shown hvisible hphase (by simp)
      cases hstep
      rw [hphase₀]
    · exact ⟨_, rfl, h.publishVerification hid hvisible⟩
    · exact ⟨_, rfl, h.publishVerification hid hvisible⟩
    · exact ⟨_, rfl, h.publishVerification hid hvisible⟩
  | decrypted d result =>
    dsimp only [step] at hstep ⊢
    split at hstep
    case h_3 => cases hstep
    all_goals
      rename_i hphase
      obtain ⟨hphase₀, hid⟩ := h.phase_shown hvisible hphase (by simp)
      cases hstep
      rw [hphase₀]
    · exact ⟨_, rfl, h.publishVerification hid hvisible⟩
    · exact ⟨_, rfl, h.resolveAnswerPromise hid hvisible⟩
  | verificationPublished d ok =>
    dsimp only [step] at hstep ⊢
    split at hstep
    case h_5 => cases hstep
    all_goals
      rename_i hphase
      obtain ⟨hphase₀, hid⟩ := h.phase_shown hvisible hphase (by simp)
      cases hstep
      rw [hphase₀]
    · exact ⟨_, rfl, h.verificationPublished hid hvisible⟩
    · exact ⟨_, rfl, h.releaseLock.setPhase hid hvisible⟩
    · exact ⟨_, rfl, h.verificationPublished hid hvisible⟩
    · exact ⟨_, rfl, h.setPhase hid hvisible⟩
  | signatureRefused d reason =>
    dsimp only [step] at hstep ⊢
    split at hstep
    case h_3 => cases hstep
    all_goals
      rename_i hphase
      obtain ⟨hphase₀, hid⟩ := h.phase_shown hvisible hphase (by simp)
      cases hstep
      rw [hphase₀]
    · exact ⟨_, rfl, h.refuseSignature hid hvisible⟩
    · exact ⟨_, rfl, h.setPhase hid hvisible⟩
  | throws d =>
    dsimp only [step] at hstep ⊢
    split at hstep
    case h_5 => cases hstep
    all_goals
      rename_i hphase
      obtain ⟨hphase₀, hid⟩ := h.phase_shown hvisible hphase (by simp)
      cases hstep
      rw [hphase₀]
    · exact ⟨_, rfl, h.setPhase hid hvisible⟩
    · exact ⟨_, rfl, h.setPhase hid hvisible⟩
    · exact ⟨_, rfl, h.setPhase hid hvisible⟩
    · exact ⟨_, rfl, h.releaseLock.setPhase hid hvisible⟩

theorem unwinding : Unwinding (step env) (Undisturbed env honest) (visible env honest)
    (Same env honest) where
  hidden := same_forged
  shown := same_shown

theorem same_initial : Same env honest initial initial where
  ongoing := rfl
  promises := rfl
  resolveReject := rfl
  localPublishers := rfl
  inFlight := rfl
  verifications := rfl
  phase _ _ := rfl
  ongoingRoom := by decide
  promisesRoom := by decide
  resolveRoom := by decide
  registered _ hentry := absurd hentry List.not_mem_nil
  outcast _ _ := trivial
  inside _ _ hdelivered := absurd rfl hdelivered

/-- What is possible for the handlers of the other messages is the same. -/
theorem Alike.possible {a : Action} (h : Alike env honest s s₀)
    (hvisible : visible env honest a = true) :
    (step env s₀ a).isSome = (step env s a).isSome := by
  cases a with
  | expire cache id => rfl
  | deliver d =>
    simp only [step, h.phase d hvisible]
    split <;> rfl
  | inFlightSettled d waitedOut =>
    simp only [step, h.phase d hvisible, h.inFlight]
    split
    · split <;> rfl
    · rfl
  | verified d timestampInRange =>
    simp only [step, h.phase d hvisible]
    split
    · split <;> rfl
    · rfl
  | parsed d _ | signatureRefused d _ | validated d _ | challenged d _ | challengePublished d _
  | answerResumed d
  | timedOut d | answersChecked d _ | stored d _ | decrypted d _ | verificationPublished d _
  | throws d =>
    simp only [step, h.phase d hvisible]
    split <;> rfl

end Operations

/-! ## Every run -/

/-- The run without the forged messages exists, ends in a state that is alike, and goes on alike. -/
def LeavesAlike (env : Env) (honest : String → Bool) (as : List Action) (s : State) : Prop :=
  ∃ s₀, Run (step env) anyStep initial (as.filter (visible env honest)) s₀ ∧
    Alike env honest s s₀ ∧
    ∀ a, visible env honest a = true → (step env s₀ a).isSome = (step env s a).isSome

/-- **Forged messages leave the exchanges of the others as they are.** -/
theorem forged_leave_alike {env : Env} {honest : String → Bool} {as : List Action} {s : State}
    (hrun : Run (step env) (Undisturbed env honest) initial as s) :
    LeavesAlike env honest as s := by
  obtain ⟨s₀, hrun₀, hsame⟩ := unwinding.run same_initial hrun
  exact ⟨s₀, hrun₀, hsame.toAlike, fun _ => hsame.toAlike.possible⟩

/-! ## Runs with forged messages -/

/-- The condition that only says which ids are honest. -/
def HonestIds (env : Env) (honest : String → Bool) : Action → Prop
  | .deliver d => d.signed env = true → honest d.id = true
  | _ => True

instance (honest : String → Bool) {α : Type} [DecidableEq α] (cache : LruCache String α)
    (key : String) : Decidable (LruCache.Spares 1000 honest cache key) :=
  inferInstanceAs (Decidable (∀ out ∈ cache.evicted 1000 key, honest out = true →
    honest key = true ∧ cache.restrict honest = cache))

instance (env : Env) (honest : String → Bool) (s : State) :
    ∀ a, Decidable (Undisturbed env honest s a)
  | .deliver d => inferInstanceAs (Decidable ((d.signed env = true → honest d.id = true) ∧
      (d.signed env = false → honest d.id = true →
        d.isRequest = true ∧ s.ongoingChallengeExchanges.has d.id = true) ∧
      (d.isRequest = true → s.ongoingChallengeExchanges.has d.id = false →
        LruCache.Spares 1000 honest s.ongoingChallengeExchanges d.id)))
  | .challengePublished d true => inferInstanceAs (Decidable
      (LruCache.Spares 1000 honest s.ongoingChallengeExchanges d.id ∧
        LruCache.Spares 1000 honest s.challengeAnswerPromises d.id ∧
        LruCache.Spares 1000 honest s.challengeAnswerResolveReject d.id))
  | .challengePublished _ false | .verified _ _ | .parsed _ _ | .signatureRefused _ _
  | .inFlightSettled _ _
  | .validated _ _ | .challenged _ _ | .answerResumed _ | .timedOut _ | .answersChecked _ _
  | .stored _ _ | .decrypted _ _ | .verificationPublished _ _ | .throws _ | .expire _ _ =>
    .isTrue trivial

instance (env : Env) (honest : String → Bool) : ∀ a, Decidable (HonestIds env honest a)
  | .deliver d => inferInstanceAs (Decidable (d.signed env = true → honest d.id = true))
  | .verified _ _ | .parsed _ _ | .signatureRefused _ _ | .inFlightSettled _ _ | .validated _ _
  | .challenged _ _
  | .challengePublished _ _ | .answerResumed _ | .timedOut _ | .answersChecked _ _ | .stored _ _
  | .decrypted _ _ | .verificationPublished _ _ | .throws _ | .expire _ _ => .isTrue trivial

def authorIsHonest (id : String) : Bool := id == "12D3KooAuthor"

/-- A message with the id of the author, signed by another one. -/
def stolenId : Message := ⟨"12D3KooAuthor", "12D3KooForger", true, true⟩

def forgedRequest : Delivery := ⟨2, .request false, stolenId⟩

def forgedAnswer : Delivery := ⟨3, .answer, stolenId⟩

/-- A message of the forger whose signature does not verify. -/
def badRequest : Delivery := ⟨4, .request true, ⟨"12D3KooForger", "12D3KooForger", true, false⟩⟩

/-- A request of the forger, and his duplicate of the author's, around an exchange of the author. -/
def disturbedExchange : List Action :=
  [.deliver badRequest] ++ challengeBody ++ [.verified badRequest true, .deliver forgedRequest,
    .challengePublished authorRequest true, .deliver authorAnswer, .verified authorAnswer true,
    .decrypted authorAnswer (.ok ["42"]), .answerResumed authorRequest,
    .answersChecked authorRequest .success, .stored authorRequest .ok,
    .verificationPublished authorRequest true]

/-- The answer of the forger drops the exchange of the author. -/
def droppedExchange : List Action :=
  challengeBody ++ [.challengePublished authorRequest true, .deliver forgedAnswer,
    .verified forgedAnswer true]

/-- The request of the forger comes first. -/
def blockedExchange : List Action :=
  [.deliver forgedRequest, .verified forgedRequest true, .deliver authorRequest]

theorem forged_leave_alike_disturbed :
    ∃ s, Run (step plainKeys) (Undisturbed plainKeys authorIsHonest) initial disturbedExchange s ∧
      s.phase authorRequest = .completed ∧
      LeavesAlike plainKeys authorIsHonest disturbedExchange s := by
  obtain ⟨s, hs, hcompleted⟩ : ∃ s, execOk (step plainKeys) (Undisturbed plainKeys authorIsHonest)
      initial disturbedExchange = some s ∧ s.phase authorRequest = .completed := by
    refine ⟨_, rfl, ?_⟩
    decide +kernel
  exact ⟨s, Run.of_execOk hs, hcompleted, forged_leave_alike (Run.of_execOk hs)⟩

/-- **A forged answer drops the exchange it names, and a forged request blocks the next.**  In the
first run the promise of the author's answer is gone, in the second the author's request is taken
for a duplicate. -/
theorem forged_disturb :
    (∃ s, Run (step plainKeys) (fun _ => HonestIds plainKeys authorIsHonest) initial
      droppedExchange s ∧ ¬ LeavesAlike plainKeys authorIsHonest droppedExchange s) ∧
    ∃ s, Run (step plainKeys) (fun _ => HonestIds plainKeys authorIsHonest) initial
      blockedExchange s ∧ s.phase authorRequest = .duplicate ∧
      ¬ LeavesAlike plainKeys authorIsHonest blockedExchange s := by
  have hdropped : ∃ s s₀, execOk (step plainKeys) (fun _ => HonestIds plainKeys authorIsHonest)
      initial droppedExchange = some s ∧ exec (step plainKeys) initial
        (droppedExchange.filter (visible plainKeys authorIsHonest)) = some s₀ ∧
      s₀.challengeAnswerResolveReject ≠ s.challengeAnswerResolveReject.restrict authorIsHonest := by
    refine ⟨_, _, rfl, rfl, ?_⟩
    decide +kernel
  have hblocked : ∃ s s₀, execOk (step plainKeys) (fun _ => HonestIds plainKeys authorIsHonest)
      initial blockedExchange = some s ∧ exec (step plainKeys) initial
        (blockedExchange.filter (visible plainKeys authorIsHonest)) = some s₀ ∧
      s.phase authorRequest = .duplicate ∧ s₀.phase authorRequest = .verifying := by
    refine ⟨_, _, rfl, rfl, ?_⟩
    decide +kernel
  obtain ⟨s, s₀, hs, hs₀, hpromise⟩ := hdropped
  obtain ⟨t, t₀, ht, ht₀, hduplicate, hverifying⟩ := hblocked
  refine ⟨⟨s, Run.of_execOk hs, ?_⟩, ⟨t, Run.of_execOk ht, hduplicate, ?_⟩⟩
  · rintro ⟨s₁, hrun, halike, -⟩
    obtain rfl := hrun.deterministic (Run.of_exec hs₀)
    exact hpromise halike.resolveReject
  · rintro ⟨t₁, hrun, halike, -⟩
    obtain rfl := hrun.deterministic (Run.of_exec ht₀)
    have hphase := halike.phase authorRequest (by decide +kernel)
    rw [hduplicate, hverifying] at hphase
    cases hphase

end Exchanges
end Pkc

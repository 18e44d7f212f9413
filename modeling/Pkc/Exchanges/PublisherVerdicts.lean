import Pkc.Exchanges.Publisher
import Mathlib.Tactic.Spread

/-!
# One challenge and one answer

Over all its exchanges a publication emits one challenge and publishes one answer, whatever comes
from the community and whatever the user does.

* `State.claims` is what `publishChallengeAnswers` looks at: the exchanges with a challenge, and
  whether an answer to them is under way or published.
* `Inv` holds in every run: nothing is emitted or claimed while there is no challenge, and the
  exchange with the challenge is claimed by the answer that is under way or published.
* `Neutral` are the steps that have to do with no challenge and no answer; `inv_step` goes through
  the others.
-/

set_option autoImplicit false

namespace Pkc
namespace Publisher

open Runs

/-! ## Challenges and answers -/

/-- The exchange a call has claimed. -/
def AnswerPhase.claim : AnswerPhase → Option String
  | .signing id | .publishing id => some id
  | _ => none

/-- The handler has looked for its exchange. -/
def HandlerPhase.isPending : HandlerPhase → Bool
  | .verifying | .decrypting => true
  | _ => false

/-- What `publishChallengeAnswers` looks at. -/
def Exchange.claim (e : Exchange) : String × Bool × Bool :=
  (e.challengeRequestId, e.challengeAnswerPublishInFlight, e.challengeAnswer)

namespace State

def ids (s : State) : List String := s.exchanges.map Exchange.challengeRequestId

def claims (s : State) : List (String × Bool × Bool) :=
  s.exchangesWithChallenge.map Exchange.claim

end State

structure Inv (s : State) : Prop where
  known : ∀ d, (s.handler d).isPending = true → d.challengeRequestId ∈ s.ids
  oneChallenge : (s.events.filter Event.isChallenge).length ≤ 1
  challenged : s.claims = [] → s.events.filter Event.isChallenge = []
  oneAnswer : (s.events.filter Event.isAnswer).length ≤ 1
  answered : s.events.filter Event.isAnswer ≠ [] → ∃ id inFlight, (id, inFlight, true) ∈ s.claims
  claimed : ∀ call id, (s.answering call).claim = some id →
    (id, true, false) ∈ s.claims ∧ s.events.filter Event.isAnswer = [] ∧
      ∀ other, (s.answering other).claim ≠ none → other = call

/-- A step that has to do with no challenge and no answer. -/
structure Neutral (s s' : State) : Prop where
  ids : ∀ id ∈ s.ids, id ∈ s'.ids
  claims : s'.claims = s.claims
  challenges : s'.events.filter Event.isChallenge = s.events.filter Event.isChallenge
  answers : s'.events.filter Event.isAnswer = s.events.filter Event.isAnswer
  answering : s'.answering = s.answering
  handler : ∀ d, (s'.handler d).isPending = true →
    (s.handler d).isPending = true ∨ d.challengeRequestId ∈ s'.ids

theorem Inv.neutral {s s' : State} (h : Inv s) (hneutral : Neutral s s') : Inv s' where
  known d hd := by
    rcases hneutral.handler d hd with hpending | hknown
    · exact hneutral.ids _ (h.known d hpending)
    · exact hknown
  oneChallenge := by
    rw [hneutral.challenges]
    exact h.oneChallenge
  challenged hnone := by
    rw [hneutral.challenges]
    exact h.challenged (hneutral.claims ▸ hnone)
  oneAnswer := by
    rw [hneutral.answers]
    exact h.oneAnswer
  answered hanswer := by
    rw [hneutral.claims]
    exact h.answered (hneutral.answers ▸ hanswer)
  claimed := by
    rw [hneutral.claims, hneutral.answers, hneutral.answering]
    exact h.claimed

section Exchanges

variable {env : Env} {s : State} {id : String} {f : Exchange → Exchange}

theorem State.ids_updateExchange (hf : ∀ e, (f e).challengeRequestId = e.challengeRequestId) :
    (s.updateExchange id f).ids = s.ids := by
  rw [State.ids, State.ids, State.updateExchange, List.map_map]
  refine List.map_congr_left fun e _ => ?_
  simp only [Function.comp]
  split
  · exact hf e
  · rfl

/-- An update that is one of the claim. -/
theorem State.claims_updateExchange {φ : String × Bool × Bool → String × Bool × Bool}
    (hf : ∀ e : Exchange, (f e).challenge = e.challenge ∧ (f e).claim = φ e.claim) :
    (s.updateExchange id f).claims = s.claims.map fun c => if c.1 = id then φ c else c := by
  rw [State.claims, State.claims, State.exchangesWithChallenge, State.exchangesWithChallenge,
    State.updateExchange, List.filter_map, List.map_map, List.map_map]
  have hchallenge : (Exchange.challenge ∘ fun e => if e.challengeRequestId = id then f e else e) =
      Exchange.challenge := by
    funext e
    simp only [Function.comp]
    split
    · exact (hf e).1
    · rfl
  rw [hchallenge]
  refine List.map_congr_left fun e _ => ?_
  simp only [Function.comp]
  split
  · rename_i hid
    rw [if_pos (show e.claim.1 = id from hid), (hf e).2]
  · rename_i hid
    rw [if_neg (show ¬ e.claim.1 = id from hid)]

/-- The update leaves the claim as it is. -/
def Exchange.SameClaim (e e' : Exchange) : Prop :=
  e'.challenge = e.challenge ∧ e'.claim = e.claim

theorem State.claims_updateExchange_same (hf : ∀ e : Exchange, e.SameClaim (f e)) :
    (s.updateExchange id f).claims = s.claims := by
  have hmap : (s.updateExchange id f).claims = s.claims.map fun c => if c.1 = id then c else c :=
    State.claims_updateExchange hf
  simpa using hmap

/-! ## Steps that have to do with no challenge and no answer -/

theorem Neutral.refl (s : State) : Neutral s s :=
  ⟨fun _ h => h, rfl, rfl, rfl, rfl, fun _ h => Or.inl h⟩

theorem Neutral.congr {s t u : State} (h : Neutral s t) (hexchanges : u.exchanges = t.exchanges)
    (hevents : u.events = t.events) (hhandler : u.handler = t.handler)
    (hanswering : u.answering = t.answering) : Neutral s u where
  ids id hid := by
    rw [State.ids, hexchanges]
    exact h.ids id hid
  claims := by
    rw [State.claims, State.exchangesWithChallenge, hexchanges]
    exact h.claims
  challenges := by rw [hevents, h.challenges]
  answers := by rw [hevents, h.answers]
  answering := hanswering.trans h.answering
  handler d hd := by
    rw [State.ids, hexchanges]
    exact h.handler d (hhandler ▸ hd)

variable {t : State} {index now : Nat} {d : Delivery}

theorem Neutral.emit {event : Event} (h : Neutral s t)
    (hevent : event.isChallenge = false ∧ event.isAnswer = false) : Neutral s (t.emit event) where
  __ := h
  challenges := by simp [State.emit, hevent.1, h.challenges]
  answers := by simp [State.emit, hevent.2, h.answers]

theorem Neutral.setHandler {phase : HandlerPhase} (h : Neutral s t)
    (hphase : phase.isPending = true → (s.handler d).isPending = true ∨
      d.challengeRequestId ∈ t.ids) : Neutral s (t.setHandler d phase) :=
  { h with
    handler := fun e he => by
      by_cases heq : e = d
      · subst heq
        exact hphase (by rwa [State.handler_setHandler_self] at he)
      · rw [State.handler_setHandler_of_ne _ _ heq] at he
        exact h.handler e he }

theorem Neutral.finish (h : Neutral s t) : Neutral s (t.setHandler d .finished) :=
  h.setHandler nofun

theorem Neutral.updateExchange (h : Neutral s t) (hf : ∀ e : Exchange, e.SameClaim (f e)) :
    Neutral s (t.updateExchange id f) where
  __ := h
  ids other hother := by
    rw [State.ids_updateExchange fun e => congrArg Prod.fst (hf e).2]
    exact h.ids other hother
  claims := (State.claims_updateExchange_same hf).trans h.claims
  handler d hd := by
    rw [State.ids_updateExchange fun e => congrArg Prod.fst (hf e).2]
    exact h.handler d hd

theorem Neutral.fail (h : Neutral s t) (code : String) : Neutral s (t.fail code) :=
  .emit (h.congr rfl rfl rfl rfl) ⟨rfl, rfl⟩

theorem Neutral.emitVerification {challengeSuccess : Bool} (h : Neutral s t) :
    Neutral s (t.emitVerification d challengeSuccess) :=
  .finish (.emit (h.congr rfl rfl rfl rfl) ⟨rfl, rfl⟩)

theorem Neutral.recordVerification {challengeSuccess hasComment : Bool} (h : Neutral s t) :
    Neutral s (t.recordVerification d challengeSuccess hasComment) := by
  have hrecorded : Neutral s (t.updateExchange d.challengeRequestId
      (Exchange.withVerification challengeSuccess)) :=
    h.updateExchange fun _ => ⟨rfl, rfl⟩
  rw [State.recordVerification]
  split
  · exact h.finish
  · split
    · exact hrecorded.setHandler nofun
    · exact hrecorded.emitVerification

theorem Neutral.openExchange (h : Neutral s t) : Neutral s (t.openExchange env index id) where
  __ := h
  ids other hother := by
    rw [State.ids, State.openExchange, List.map_append]
    exact List.mem_append_left _ (h.ids other hother)
  claims := (by simp [State.claims, State.exchangesWithChallenge, State.openExchange] :
    (t.openExchange env index id).claims = t.claims).trans h.claims
  handler d hd := by
    rw [State.ids, State.openExchange, List.map_append, List.mem_append]
    exact (h.handler d hd).imp_right Or.inl

theorem Neutral.setLoop {loop : Loop} (h : Neutral s t) : Neutral s (t.setLoop loop) :=
  h.congr rfl rfl rfl rfl

theorem Neutral.giveUp (h : Neutral s t) (code : String) : Neutral s (t.giveUp code) :=
  h.congr rfl rfl rfl rfl

theorem Neutral.requestFailed (h : Neutral s t) : Neutral s (t.requestFailed id) :=
  h.updateExchange fun _ => ⟨rfl, rfl⟩

theorem Neutral.requestSent (h : Neutral s t) : Neutral s (t.requestSent id now) :=
  h.updateExchange fun _ => ⟨rfl, rfl⟩

theorem Neutral.publishLoop (h : Neutral s t) : Neutral s (t.publishLoop env index) := by
  rw [State.publishLoop]
  split <;> exact h.setLoop

theorem Neutral.retryLoop (h : Neutral s t) : Neutral s (t.retryLoop env index) := by
  rw [State.retryLoop]
  split <;> exact h.setLoop

theorem Neutral.publishFailed (h : Neutral s t) :
    Neutral s (t.publishFailed env index id now) := by
  rw [State.publishFailed]
  split
  · exact h.requestFailed.giveUp _
  · exact h.requestFailed.publishLoop

theorem Neutral.published (h : Neutral s t) : Neutral s (t.published index id now) := by
  have hwaiting : Neutral s ((t.requestSent id now).updatePublishingState .waitingChallenge) :=
    h.requestSent.congr rfl rfl rfl rfl
  exact (hwaiting.emit ⟨rfl, rfl⟩).setLoop

theorem Neutral.waitForChallenge (h : Neutral s t) : Neutral s t.waitForChallenge := by
  rw [State.waitForChallenge]
  split
  · exact h
  · exact h.congr rfl rfl rfl rfl

theorem Neutral.waitForNext (h : Neutral s t) : Neutral s (t.waitForNext env index) := by
  rw [State.waitForNext]
  split
  · exact h.setLoop
  · exact h.retryLoop

theorem Neutral.republished (h : Neutral s t) : Neutral s (t.republished env index id now) :=
  (h.requestSent.waitForChallenge.emit ⟨rfl, rfl⟩).waitForNext

theorem Neutral.firstWaitOver (h : Neutral s t) :
    Neutral s (t.firstWaitOver env index now) := by
  rw [State.firstWaitOver]
  split
  · exact h.setLoop
  split
  · exact h.giveUp _
  split
  · exact h.setLoop
  split
  · exact h.congr rfl rfl rfl rfl
  · exact h.retryLoop

theorem Neutral.lastWaitOver (h : Neutral s t) : Neutral s (t.lastWaitOver env now) := by
  rw [State.lastWaitOver]
  split
  · exact h.setLoop
  split
  · exact h.setLoop
  split
  · exact h.giveUp _
  · exact h.setLoop

end Exchanges

section Steps

variable {env : Env} {s s' : State}

theorem Neutral.handleMessage {d : Delivery} {phase : HandlerPhase}
    (hexists : (s.exchanges.any fun e => e.challengeRequestId = d.challengeRequestId) = true) :
    Neutral s (s.setHandler d phase) := by
  refine (Neutral.refl s).setHandler fun _ => Or.inr ?_
  obtain ⟨e, he, hid⟩ := List.any_eq_true.1 hexists
  exact List.mem_map.2 ⟨e, he, by simpa using hid⟩

theorem neutral_deliver {d : Delivery} (hstep : step env s (.deliver d) = some s') :
    Neutral s s' := by
  dsimp only [step] at hstep
  split at hstep
  · cases hstep
    exact (Neutral.refl s).finish
  · rename_i hexists _
    rw [Option.some.injEq, State.handleChallenge] at hstep
    split at hstep
    all_goals
      subst hstep
      exact .handleMessage hexists
  · rename_i hexists _
    rw [Option.some.injEq, State.handleChallengeVerification] at hstep
    split at hstep
    all_goals
      subst hstep
      exact .handleMessage hexists
  · cases hstep

theorem neutral_verified {d : Delivery} {valid : Bool}
    (hstep : step env s (.verified d valid) = some s') : Neutral s s' := by
  dsimp only [step] at hstep
  split at hstep
  case h_6 => cases hstep
  all_goals
    cases hstep
  · exact ((Neutral.refl s).fail _).finish
  · exact ((Neutral.refl s).fail _).finish
  · rename_i hphase _
    exact (Neutral.refl s).setHandler fun _ => Or.inl (by rw [hphase]; rfl)
  · rename_i hphase _
    exact (Neutral.refl s).setHandler fun _ => Or.inl (by rw [hphase]; rfl)
  · exact (Neutral.refl s).recordVerification

theorem neutral_verificationDecrypted {d : Delivery} {result : Except String Bool}
    (hstep : step env s (.verificationDecrypted d result) = some s') : Neutral s s' := by
  dsimp only [step] at hstep
  split at hstep
  case h_3 => cases hstep
  all_goals
    cases hstep
  · exact (Neutral.refl s).recordVerification
  · exact ((Neutral.refl s).emit ⟨rfl, rfl⟩).finish

theorem neutral_commentUpdated {d : Delivery} {ok : Bool}
    (hstep : step env s (.commentUpdated d ok) = some s') : Neutral s s' := by
  dsimp only [step] at hstep
  split at hstep
  case h_3 => cases hstep
  all_goals
    cases hstep
  · exact (Neutral.refl s).emitVerification
  · exact (Neutral.refl s).finish

theorem neutral_requestGenerated {id : Option String}
    (hstep : step env s (.requestGenerated id) = some s') : Neutral s s' := by
  cases id with
  | none =>
    dsimp only [step] at hstep
    split at hstep
    case h_3 => cases hstep
    all_goals
      cases hstep
      exact (Neutral.refl s).setLoop
  | some id =>
    dsimp only [step] at hstep
    split at hstep
    · cases hstep
    split at hstep
    case h_3 => cases hstep
    all_goals
      cases hstep
      exact (Neutral.refl s).openExchange.setLoop

theorem neutral_subscribed {ok : Bool} {now : Nat}
    (hstep : step env s (.subscribed ok now) = some s') : Neutral s s' := by
  dsimp only [step] at hstep
  split at hstep
  case h_5 => cases hstep
  all_goals
    cases hstep
  · exact (Neutral.refl s).setLoop
  · exact (Neutral.refl s).publishFailed
  · exact (Neutral.refl s).setLoop
  · exact (Neutral.refl s).requestFailed.retryLoop

theorem neutral_requestPublished {ok : Bool} {now : Nat}
    (hstep : step env s (.requestPublished ok now) = some s') : Neutral s s' := by
  dsimp only [step] at hstep
  split at hstep
  case h_5 => cases hstep
  all_goals
    cases hstep
  · exact (Neutral.refl s).published
  · exact (Neutral.refl s).publishFailed
  · exact (Neutral.refl s).republished
  · exact (Neutral.refl s).requestFailed.retryLoop

theorem neutral_cleanedUp (hstep : step env s .cleanedUp = some s') : Neutral s s' := by
  dsimp only [step] at hstep
  split at hstep
  · cases hstep
    exact ((Neutral.refl s).fail _).setLoop
  · cases hstep

theorem neutral_woke {now : Nat} (hstep : step env s (.woke now) = some s') : Neutral s s' := by
  dsimp only [step] at hstep
  split at hstep
  case h_4 => cases hstep
  all_goals
    cases hstep
  · exact (Neutral.refl s).firstWaitOver
  · exact (Neutral.refl s).retryLoop
  · exact (Neutral.refl s).lastWaitOver

/-! ## The challenge is recorded -/

theorem inv_recordChallenge {d : Delivery} (h : Inv s) (hphase : s.handler d = .decrypting) :
    Inv (s.recordChallenge d) := by
  rw [State.recordChallenge]
  split
  · rename_i hnone
    have hclaims : s.claims = [] := by
      rw [State.claims, List.isEmpty_iff.1 hnone, List.map_nil]
    have hids : (s.updateExchange d.challengeRequestId Exchange.withChallenge).ids =
        s.ids := State.ids_updateExchange fun _ => rfl
    have hanswers : s.events.filter Event.isAnswer = [] := by
      by_contra hanswer
      obtain ⟨id, inFlight, hmem⟩ := h.answered hanswer
      rw [hclaims] at hmem
      exact absurd hmem List.not_mem_nil
    have hknown := h.known d (by rw [hphase]; rfl)
    constructor
    case known =>
      intro e he
      show e.challengeRequestId ∈ (s.updateExchange d.challengeRequestId _).ids
      rw [hids]
      by_cases heq : e = d
      · exact heq ▸ hknown
      · rw [State.handler_setHandler_of_ne _ _ heq] at he
        exact h.known e he
    case oneChallenge =>
      show ((s.events ++ [_]).filter _).length ≤ 1
      rw [List.filter_append, h.challenged hclaims]
      exact Nat.le_refl 1
    case challenged =>
      intro hnil
      obtain ⟨e, he, hid⟩ := List.mem_map.1 hknown
      have hnil' : (s.updateExchange d.challengeRequestId Exchange.withChallenge).claims = [] :=
        hnil
      have hclaim : e.withChallenge.claim ∈
          (s.updateExchange d.challengeRequestId Exchange.withChallenge).claims := by
        refine List.mem_map_of_mem (List.mem_filter.2 ⟨List.mem_map.2 ⟨e, he, ?_⟩, rfl⟩)
        rw [if_pos hid]
      rw [hnil'] at hclaim
      exact absurd hclaim List.not_mem_nil
    case oneAnswer =>
      show ((s.events ++ [_]).filter _).length ≤ 1
      rw [List.filter_append, hanswers]
      exact Nat.zero_le 1
    case answered =>
      intro hanswer
      refine absurd ?_ hanswer
      show (s.events ++ [_]).filter _ = []
      rw [List.filter_append, hanswers]
      rfl
    case claimed =>
      intro call id hclaim
      have hmem := (h.claimed call id hclaim).1
      rw [hclaims] at hmem
      exact absurd hmem List.not_mem_nil
  · exact h.neutral (Neutral.refl s).finish

/-! ## The answer is published -/

theorem inv_threw {call : Nat} (h : Inv s) : Inv (s.setAnswering call .threw) :=
  { h with
    claimed := by
      intro other id hclaim
      by_cases heq : other = call
      · rw [heq, State.answering_setAnswering_self] at hclaim
        cases hclaim
      · rw [State.answering_setAnswering_of_ne _ _ heq] at hclaim
        obtain ⟨hmem, hanswers, honly⟩ := h.claimed other id hclaim
        refine ⟨hmem, hanswers, fun third hthird => honly third fun hnone => hthird ?_⟩
        by_cases heq' : third = call
        · rw [heq', State.answering_setAnswering_self]
          rfl
        · rw [State.answering_setAnswering_of_ne _ _ heq', hnone] }

/-- No call has claimed anything while an exchange with the challenge is free. -/
theorem Inv.free (h : Inv s) {id : String} (hclaims : s.claims = [(id, false, false)]) :
    s.events.filter Event.isAnswer = [] ∧ ∀ call, (s.answering call).claim = none := by
  constructor
  · by_contra hanswer
    obtain ⟨id', inFlight, hmem⟩ := h.answered hanswer
    rw [hclaims] at hmem
    simp at hmem
  · intro call
    cases hcall : (s.answering call).claim with
    | none => rfl
    | some id' =>
      have hmem := (h.claimed call id' hcall).1
      rw [hclaims] at hmem
      simp at hmem

theorem inv_publishChallengeAnswers {call : Nat} (h : Inv s) :
    Inv (s.publishChallengeAnswers call) := by
  rw [State.publishChallengeAnswers]
  split
  · rename_i e hone
    split
    · exact inv_threw h
    · rename_i hfree
      rw [Bool.or_eq_true, not_or, Bool.not_eq_true, Bool.not_eq_true] at hfree
      have hclaims : s.claims = [(e.challengeRequestId, false, false)] := by
        rw [State.claims, hone, List.map_singleton, Exchange.claim, hfree.1, hfree.2]
      have hclaims' : (s.updateExchange e.challengeRequestId Exchange.claimAnswer).claims =
          s.claims.map fun c => if c.1 = e.challengeRequestId then (c.1, true, c.2.2) else c :=
        State.claims_updateExchange fun _ => ⟨rfl, rfl⟩
      rw [hclaims, List.map_singleton, if_pos rfl] at hclaims'
      obtain ⟨hanswers, hcalls⟩ := h.free hclaims
      have hids : (s.updateExchange e.challengeRequestId Exchange.claimAnswer).ids = s.ids :=
        State.ids_updateExchange fun _ => rfl
      constructor
      case known => exact fun d hd => hids ▸ h.known d hd
      case oneChallenge => exact h.oneChallenge
      case challenged => exact fun hnil => absurd (hclaims'.symm.trans hnil) (List.cons_ne_nil _ _)
      case oneAnswer => exact h.oneAnswer
      case answered => exact fun hanswer => absurd hanswers hanswer
      case claimed =>
        intro other id hclaim
        by_cases heq : other = call
        · rw [heq, State.answering_setAnswering_self] at hclaim
          rw [heq, ← Option.some.inj hclaim]
          refine ⟨?_, hanswers, fun third hthird => ?_⟩
          · show _ ∈ (s.updateExchange e.challengeRequestId Exchange.claimAnswer).claims
            rw [hclaims']
            exact List.mem_singleton.2 rfl
          · by_contra hne
            rw [State.answering_setAnswering_of_ne _ _ hne] at hthird
            exact hthird (hcalls third)
        · rw [State.answering_setAnswering_of_ne _ _ heq] at hclaim
          cases hclaim.symm.trans (hcalls other)
  · exact inv_threw h

/-- The call that has claimed the challenge gives up. -/
theorem inv_released {call : Nat} {id : String} {f : Exchange → Exchange} (h : Inv s)
    (hclaim : (s.answering call).claim = some id)
    (hf : ∀ e : Exchange, (f e).challenge = e.challenge ∧
      (f e).claim = (e.challengeRequestId, false, e.challengeAnswer)) :
    Inv ((s.updateExchange id f).setAnswering call .threw) := by
  obtain ⟨hmem, hanswers, honly⟩ := h.claimed call id hclaim
  have hclaims : (s.updateExchange id f).claims =
      s.claims.map fun c => if c.1 = id then (c.1, false, c.2.2) else c :=
    State.claims_updateExchange hf
  have hids : (s.updateExchange id f).ids = s.ids :=
    State.ids_updateExchange fun e => congrArg Prod.fst (hf e).2
  constructor
  case known => exact fun d hd => hids ▸ h.known d hd
  case oneChallenge => exact h.oneChallenge
  case challenged =>
    exact fun hnil => h.challenged (List.map_eq_nil_iff.1 (hclaims.symm.trans hnil))
  case oneAnswer => exact h.oneAnswer
  case answered => exact fun hanswer => absurd hanswers hanswer
  case claimed =>
    intro other id' hclaim'
    by_cases heq : other = call
    · rw [heq, State.answering_setAnswering_self] at hclaim'
      cases hclaim'
    · rw [State.answering_setAnswering_of_ne _ _ heq] at hclaim'
      have hother : (s.answering other).claim = some id' := hclaim'
      exact absurd (honly other (by rw [hother]; nofun)) heq

theorem inv_answerSigned {call : Nat} {id : String} {ok : Bool} (h : Inv s)
    (hphase : s.answering call = .signing id) : Inv (s.answerSigned call id ok) := by
  have hclaim : (s.answering call).claim = some id := by rw [hphase]; rfl
  rw [State.answerSigned]
  split
  · have hcalls : ∀ other, (((s.updatePublishingState .publishingChallengeAnswer).setAnswering call
        (.publishing id)).answering other).claim = (s.answering other).claim := by
      intro other
      by_cases heq : other = call
      · rw [heq, State.answering_setAnswering_self, hclaim]
        rfl
      · rw [State.answering_setAnswering_of_ne _ _ heq]
        rfl
    exact
      { h with
        claimed := by
          simp only [hcalls]
          exact h.claimed }
  · exact inv_released h hclaim fun _ => ⟨rfl, rfl⟩

theorem inv_answerPublished {call : Nat} {id : String} {ok : Bool} (h : Inv s)
    (hphase : s.answering call = .publishing id) : Inv (s.answerPublished call id ok) := by
  have hclaim : (s.answering call).claim = some id := by rw [hphase]; rfl
  rw [State.answerPublished]
  split
  · obtain ⟨hmem, hanswers, honly⟩ := h.claimed call id hclaim
    have hclaims : (s.updateExchange id Exchange.withAnswer).claims =
        s.claims.map fun c => if c.1 = id then (c.1, c.2.1, true) else c :=
      State.claims_updateExchange fun _ => ⟨rfl, rfl⟩
    have hids : (s.updateExchange id Exchange.withAnswer).ids = s.ids :=
      State.ids_updateExchange fun _ => rfl
    constructor
    case known => exact fun d hd => hids ▸ h.known d hd
    case oneChallenge =>
      show ((s.events ++ [_]).filter _).length ≤ 1
      rw [List.filter_append]
      simpa [Event.isChallenge] using h.oneChallenge
    case challenged =>
      intro hnil
      show (s.events ++ [_]).filter _ = []
      rw [List.filter_append, h.challenged (List.map_eq_nil_iff.1 (hclaims.symm.trans hnil))]
      rfl
    case oneAnswer =>
      show ((s.events ++ [_]).filter _).length ≤ 1
      rw [List.filter_append, hanswers]
      exact Nat.le_refl 1
    case answered =>
      intro _
      refine ⟨id, true, ?_⟩
      show _ ∈ (s.updateExchange id Exchange.withAnswer).claims
      rw [hclaims]
      exact List.mem_map.2 ⟨_, hmem, by simp⟩
    case claimed =>
      intro other id' hclaim'
      by_cases heq : other = call
      · rw [heq, State.answering_setAnswering_self] at hclaim'
        cases hclaim'
      · rw [State.answering_setAnswering_of_ne _ _ heq] at hclaim'
        have hother : (s.answering other).claim = some id' := hclaim'
        exact absurd (honly other (by rw [hother]; nofun)) heq
  · have hreleased : Inv ((s.updateExchange id Exchange.answerFailed).setAnswering call .threw) :=
      inv_released h hclaim fun _ => ⟨rfl, rfl⟩
    exact hreleased.neutral ((Neutral.refl _).congr rfl rfl rfl rfl)

/-- **Every step keeps the claim.** -/
theorem inv_step {a : Action} (h : Inv s) (hstep : step env s a = some s') : Inv s' := by
  cases a with
  | deliver d => exact h.neutral (neutral_deliver hstep)
  | verified d valid => exact h.neutral (neutral_verified hstep)
  | verificationDecrypted d result => exact h.neutral (neutral_verificationDecrypted hstep)
  | commentUpdated d ok => exact h.neutral (neutral_commentUpdated hstep)
  | requestGenerated id => exact h.neutral (neutral_requestGenerated hstep)
  | subscribed ok now => exact h.neutral (neutral_subscribed hstep)
  | requestPublished ok now => exact h.neutral (neutral_requestPublished hstep)
  | cleanedUp => exact h.neutral (neutral_cleanedUp hstep)
  | woke now => exact h.neutral (neutral_woke hstep)
  | challengeDecrypted d result =>
    dsimp only [step] at hstep
    split at hstep
    · rename_i hphase _
      cases hstep
      exact inv_recordChallenge h hphase
    · cases hstep
      exact h.neutral ((Neutral.refl s).fail _).finish
    · cases hstep
  | publishChallengeAnswers call =>
    dsimp only [step] at hstep
    split at hstep
    · cases hstep
      exact inv_publishChallengeAnswers h
    · cases hstep
  | answerSigned call ok =>
    dsimp only [step] at hstep
    split at hstep
    · rename_i id hphase
      cases hstep
      exact inv_answerSigned h hphase
    · cases hstep
  | answerPublished call ok =>
    dsimp only [step] at hstep
    split at hstep
    · rename_i id hphase
      cases hstep
      exact inv_answerPublished h hphase
    · cases hstep

theorem inv_initial : Inv initial where
  known _ hd := absurd hd Bool.false_ne_true
  oneChallenge := Nat.zero_le 1
  challenged _ := rfl
  oneAnswer := Nat.zero_le 1
  answered hanswer := absurd rfl hanswer
  claimed _ _ hclaim := absurd hclaim nofun

end Steps

end Publisher
end Pkc

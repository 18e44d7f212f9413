import Pkc.Exchanges.PublisherVerdicts

/-!
# The verdict of a publication

A verdict should be the last word of a publication: emitted once, with nothing that writes the
publishing state after it.

* `Orderly` is the condition on a step: no exchange records a verdict after another one has, the
  verdict is emitted while no answer is under way and the publish loop only waits, and after it no
  challenge comes through or is answered.
* `Over` is what holds from the verdict on, and `Frame` what a step that emits none does to it:
  the publish loop and the calls of the user find out that they have nothing left to do.
* `publication_settles` is the result over runs; `publication_unsettled` has a run with two verdicts
  and one whose verdict is overwritten.
-/

set_option autoImplicit false

namespace Pkc
namespace Publisher

open Runs

/-! ## The condition -/

/-- Where the publish loop has nothing of its own to write. -/
def Loop.isQuiet : Loop → Bool
  | .generating _ | .publishing _ _ | .givingUp _ | .regenerating _ => false
  | _ => true

/-- No answer is under way and the publish loop only waits. -/
def Quiet (s : State) : Prop :=
  (∀ e ∈ s.exchanges, e.challengeAnswerPublishInFlight = true → e.challengeAnswer = true) ∧
    s.loop.isQuiet = true

/-- No other exchange has recorded a verdict. -/
def Alone (s : State) (id : String) : Prop :=
  ∀ e ∈ s.exchanges, e.challengeRequestId ≠ id → e.challengeVerification = none

namespace State

def verdictEmitted (s : State) : Bool := s.events.any Event.isVerdict

end State

/-- The verdict is decrypted before it is recorded. -/
def Delivery.isDecrypted (d : Delivery) : Bool :=
  match d.kind with
  | .challenge => true
  | .verification challengeSuccess encrypted => challengeSuccess && encrypted

/-- The condition on a step. -/
def Orderly (s : State) : Action → Prop
  | .verified d valid =>
    valid = true ∧ (d.isDecrypted = false → s.hasVerification d.challengeRequestId = false →
      Alone s d.challengeRequestId ∧ Quiet s)
  | .verificationDecrypted d (.ok hasComment) =>
    s.hasVerification d.challengeRequestId = false →
      Alone s d.challengeRequestId ∧ (hasComment = false → Quiet s)
  | .commentUpdated _ true => Quiet s
  | .challengeDecrypted _ (.ok _) => s.verdictEmitted = true → s.exchangesWithChallenge ≠ []
  | .challengeDecrypted _ (.error _) => s.verdictEmitted = false
  | .publishChallengeAnswers _ =>
    s.verdictEmitted = true → ∀ e ∈ s.exchangesWithChallenge,
      e.challengeAnswer = true ∨ e.challengeAnswerPublishInFlight = true
  | _ => True

/-! ## After the verdict -/

/-- Some exchange has recorded its verdict. -/
def Recorded (s : State) : Prop := ∃ e ∈ s.exchanges, e.challengeVerification.isSome = true

/-- Nothing is under way that writes the publishing state. -/
structure Settled (s : State) : Prop where
  stopped : s.stopped = true
  loop : s.loop.isQuiet = true
  calls : ∀ call, (s.answering call).claim = none

/-- The verdict has been emitted. -/
structure Over (s : State) : Prop where
  emitted : s.verdictEmitted = true
  recorded : Recorded s
  settled : Settled s

/-- What the verdict has done, as soon as there is one. -/
structure Ended (s : State) : Prop where
  oneVerdict : (s.events.filter Event.isVerdict).length ≤ 1
  pending : ∀ d challengeSuccess, s.handler d = .updatingComment challengeSuccess →
    s.verdictEmitted = false ∧
      ∀ other success, s.handler other = .updatingComment success → other = d
  recorded : (s.verdictEmitted = true ∨
    ∃ d challengeSuccess, s.handler d = .updatingComment challengeSuccess) → Recorded s
  settled : s.verdictEmitted = true → Settled s
  state : ∀ id challengeSuccess, .challengeverification id challengeSuccess ∈ s.events →
    s.publishingState = State.verdictState challengeSuccess

/-- A step that neither records nor emits a verdict. -/
structure Frame (s t : State) : Prop where
  verdicts : t.events.filter Event.isVerdict = s.events.filter Event.isVerdict
  pending : ∀ d challengeSuccess, t.handler d = .updatingComment challengeSuccess →
    s.handler d = .updatingComment challengeSuccess
  recorded : Recorded s → Recorded t
  after : Over s → t.publishingState = s.publishingState ∧ Settled t

theorem State.verdictEmitted_iff {s : State} :
    s.verdictEmitted = true ↔ s.events.filter Event.isVerdict ≠ [] := by
  rw [State.verdictEmitted, List.any_eq_true, Ne, List.filter_eq_nil_iff, not_forall]
  simp only [Classical.not_imp, not_not]

theorem Frame.emitted {s t : State} (h : Frame s t) : t.verdictEmitted = s.verdictEmitted := by
  rw [Bool.eq_iff_iff, State.verdictEmitted_iff, State.verdictEmitted_iff, h.verdicts]

theorem Ended.over {s : State} (h : Ended s) (hemitted : s.verdictEmitted = true) : Over s :=
  ⟨hemitted, h.recorded (Or.inl hemitted), h.settled hemitted⟩

theorem Ended.frame {s t : State} (h : Ended s) (hframe : Frame s t) : Ended t where
  oneVerdict := by
    rw [hframe.verdicts]
    exact h.oneVerdict
  pending d challengeSuccess hd := by
    obtain ⟨hemitted, honly⟩ := h.pending d challengeSuccess (hframe.pending d _ hd)
    rw [hframe.emitted]
    exact ⟨hemitted, fun other success hother => honly other success (hframe.pending _ _ hother)⟩
  recorded hsome := by
    rw [hframe.emitted] at hsome
    refine hframe.recorded (h.recorded (hsome.imp_right ?_))
    rintro ⟨d, challengeSuccess, hd⟩
    exact ⟨d, challengeSuccess, hframe.pending d _ hd⟩
  settled hemitted := (hframe.after (h.over (hframe.emitted ▸ hemitted))).2
  state id challengeSuccess hmem := by
    have hmem' : Event.challengeverification id challengeSuccess ∈
        s.events.filter Event.isVerdict := by
      rw [← hframe.verdicts]
      exact List.mem_filter.2 ⟨hmem, rfl⟩
    have hold := (List.mem_filter.1 hmem').1
    have hemitted : s.verdictEmitted = true := List.any_eq_true.2 ⟨_, hold, rfl⟩
    rw [(hframe.after (h.over hemitted)).1]
    exact h.state id challengeSuccess hold

section Frames

variable {env : Env} {s t : State} {id : String} {d : Delivery} {index now : Nat}
  {f : Exchange → Exchange}

theorem Frame.refl (s : State) : Frame s s :=
  ⟨rfl, fun _ _ h => h, fun h => h, fun h => ⟨rfl, h.settled⟩⟩

theorem Frame.setHandler {phase : HandlerPhase} (h : Frame s t)
    (hphase : ∀ challengeSuccess, phase ≠ .updatingComment challengeSuccess) :
    Frame s (t.setHandler d phase) :=
  { h with
    pending := by
      intro e challengeSuccess he
      by_cases heq : e = d
      · rw [heq, State.handler_setHandler_self] at he
        exact absurd he (hphase challengeSuccess)
      · rw [State.handler_setHandler_of_ne _ _ heq] at he
        exact h.pending e challengeSuccess he
    after := fun hover => ⟨(h.after hover).1, { (h.after hover).2 with }⟩ }

theorem Frame.finish (h : Frame s t) : Frame s (t.setHandler d .finished) := h.setHandler nofun

theorem Frame.emit {event : Event} (h : Frame s t) (hevent : event.isVerdict = false) :
    Frame s (t.emit event) :=
  { h with
    verdicts := by simp [State.emit, hevent, h.verdicts]
    after := fun hover => ⟨(h.after hover).1, { (h.after hover).2 with }⟩ }

theorem Frame.updateExchange (h : Frame s t)
    (hf : ∀ e, (f e).challengeVerification = e.challengeVerification) :
    Frame s (t.updateExchange id f) :=
  { h with
    recorded := by
      intro hrecorded
      obtain ⟨e, he, hsome⟩ := h.recorded hrecorded
      refine ⟨_, List.mem_map.2 ⟨e, he, rfl⟩, ?_⟩
      split
      · rwa [hf e]
      · exact hsome
    after := fun hover => ⟨(h.after hover).1, { (h.after hover).2 with }⟩ }

/-- Writes that are possible only before the verdict. -/
theorem Frame.before {u : State} (h : Frame s t) (hover : ¬ Over s)
    (hevents : u.events = t.events) (hhandler : u.handler = t.handler)
    (hexchanges : ∃ rest, u.exchanges = t.exchanges ++ rest) : Frame s u where
  verdicts := by rw [hevents, h.verdicts]
  pending := by
    rw [hhandler]
    exact h.pending
  recorded hrecorded := by
    obtain ⟨e, he, hsome⟩ := h.recorded hrecorded
    obtain ⟨rest, hrest⟩ := hexchanges
    exact ⟨e, by rw [hrest]; exact List.mem_append_left _ he, hsome⟩
  after hyes := absurd hyes hover

theorem Frame.setLoop {loop : Loop} (h : Frame s t) (hloop : Over s → loop.isQuiet = true) :
    Frame s (t.setLoop loop) :=
  { h with
    after := fun hover =>
      ⟨(h.after hover).1, { (h.after hover).2 with loop := hloop hover }⟩ }

theorem Frame.setAnswering {call : Nat} {phase : AnswerPhase} (h : Frame s t)
    (hphase : Over s → phase.claim = none) : Frame s (t.setAnswering call phase) :=
  { h with
    after := fun hover =>
      ⟨(h.after hover).1,
        { (h.after hover).2 with
          calls := by
            intro other
            by_cases heq : other = call
            · rw [heq, State.answering_setAnswering_self]
              exact hphase hover
            · rw [State.answering_setAnswering_of_ne _ _ heq]
              exact (h.after hover).2.calls other }⟩ }

/-! ## The publish loop after the verdict -/

theorem Recorded.didWeReceive (h : Recorded s) :
    s.didWeReceiveChallengeOrChallengeVerification = true := by
  obtain ⟨e, he, hsome⟩ := h
  exact List.any_eq_true.2 ⟨e, he, by rw [hsome, Bool.or_true]⟩

theorem Recorded.not_exhausted (h : Recorded s) : s.isAllAttemptsExhausted env now = false := by
  obtain ⟨e, he, hsome⟩ := h
  rw [State.isAllAttemptsExhausted, Bool.and_eq_false_iff]
  refine Or.inr (List.all_eq_false.2 ⟨e, he, ?_⟩)
  simp [hsome]

theorem Frame.publishLoop (h : Frame s t) : Frame s (t.publishLoop env index) := by
  rw [State.publishLoop]
  split
  · rename_i hagain
    refine h.setLoop fun hover => ?_
    rw [(h.recorded hover.recorded).didWeReceive] at hagain
    simp at hagain
  · exact h.setLoop fun _ => rfl

theorem Frame.retryLoop (h : Frame s t) : Frame s (t.retryLoop env index) := by
  rw [State.retryLoop]
  split
  · rename_i hagain
    refine h.setLoop fun hover => ?_
    rw [(h.recorded hover.recorded).didWeReceive] at hagain
    simp at hagain
  · exact h.setLoop fun _ => rfl

theorem Frame.giveUp {code : String} (h : Frame s t)
    (hexhausted : t.isAllAttemptsExhausted env now = true) : Frame s (t.giveUp code) := by
  have hover : ¬ Over s := by
    intro hover
    rw [(h.recorded hover.recorded).not_exhausted] at hexhausted
    cases hexhausted
  exact h.before hover rfl rfl ⟨[], by simp [State.giveUp]⟩

theorem Frame.requestFailed (h : Frame s t) : Frame s (t.requestFailed id) :=
  h.updateExchange fun _ => rfl

theorem Frame.requestSent (h : Frame s t) : Frame s (t.requestSent id now) :=
  h.updateExchange fun _ => rfl

theorem Frame.publishFailed (h : Frame s t) : Frame s (t.publishFailed env index id now) := by
  rw [State.publishFailed]
  split
  · rename_i hexhausted
    exact h.requestFailed.giveUp hexhausted
  · exact h.requestFailed.publishLoop

theorem Frame.waitForChallenge (h : Frame s t) : Frame s t.waitForChallenge := by
  rw [State.waitForChallenge]
  split
  · exact h
  · rename_i hnone
    have hover : ¬ Over s := fun hover => hnone (h.recorded hover.recorded).didWeReceive
    exact h.before hover rfl rfl ⟨[], by simp [State.updatePublishingState]⟩

theorem Frame.waitForNext (h : Frame s t) : Frame s (t.waitForNext env index) := by
  rw [State.waitForNext]
  split
  · exact h.setLoop fun _ => rfl
  · exact h.retryLoop

theorem Frame.republished (h : Frame s t) : Frame s (t.republished env index id now) :=
  (h.requestSent.waitForChallenge.emit rfl).waitForNext

theorem Frame.firstWaitOver (h : Frame s t) : Frame s (t.firstWaitOver env index now) := by
  rw [State.firstWaitOver]
  split
  · exact h.setLoop fun _ => rfl
  rename_i hnone
  split
  · rename_i hexhausted
    exact h.giveUp hexhausted
  split
  · exact h.setLoop fun _ => rfl
  split
  · have hover : ¬ Over s := fun hover => hnone (h.recorded hover.recorded).didWeReceive
    exact h.before hover rfl rfl ⟨[], by simp⟩
  · exact h.retryLoop

theorem Frame.lastWaitOver (h : Frame s t) : Frame s (t.lastWaitOver env now) := by
  rw [State.lastWaitOver]
  split
  · exact h.setLoop fun _ => rfl
  split
  · exact h.setLoop fun _ => rfl
  split
  · rename_i hexhausted
    exact h.giveUp hexhausted
  · exact h.setLoop fun _ => rfl

end Frames

section Steps

variable {env : Env} {s s' : State} {d : Delivery} {id : String}

/-! ## Steps without a verdict -/

theorem frame_deliver (hstep : step env s (.deliver d) = some s') : Frame s s' := by
  dsimp only [step] at hstep
  split at hstep
  · cases hstep
    exact (Frame.refl s).finish
  · rw [Option.some.injEq, State.handleChallenge] at hstep
    split at hstep
    all_goals
      subst hstep
      exact (Frame.refl s).setHandler (by simp)
  · rw [Option.some.injEq, State.handleChallengeVerification] at hstep
    split at hstep
    all_goals
      subst hstep
      exact (Frame.refl s).setHandler (by simp)
  · cases hstep

theorem frame_challengeDecrypted {result : Except String Unit}
    (hok : Orderly s (.challengeDecrypted d result))
    (hstep : step env s (.challengeDecrypted d result) = some s') : Frame s s' := by
  dsimp only [step] at hstep
  split at hstep
  · rw [Option.some.injEq, State.recordChallenge] at hstep
    split at hstep
    · rename_i hnone
      have hover : ¬ Over s := fun hover => hok hover.emitted (List.isEmpty_iff.1 hnone)
      have hrecorded : Frame s (s.updateExchange d.challengeRequestId Exchange.withChallenge) :=
        (Frame.refl s).updateExchange fun _ => rfl
      have hwaiting : Frame s ((s.updateExchange d.challengeRequestId
          Exchange.withChallenge).updatePublishingState .waitingChallengeAnswers) :=
        hrecorded.before hover rfl rfl ⟨[], by simp [State.updatePublishingState]⟩
      subst hstep
      exact (hwaiting.emit rfl).finish
    · subst hstep
      exact (Frame.refl s).finish
  · have hover : ¬ Over s := fun hover => by
      have hnone : s.verdictEmitted = false := hok
      rw [hover.emitted] at hnone
      cases hnone
    have hfailed : Frame s (s.updatePublishingState .failed) :=
      (Frame.refl s).before hover rfl rfl ⟨[], by simp [State.updatePublishingState]⟩
    cases hstep
    exact (hfailed.emit rfl).finish
  · cases hstep

theorem frame_publishChallengeAnswers {call : Nat}
    (hok : Orderly s (.publishChallengeAnswers call))
    (hstep : step env s (.publishChallengeAnswers call) = some s') : Frame s s' := by
  dsimp only [step] at hstep
  split at hstep
  · rw [Option.some.injEq, State.publishChallengeAnswers] at hstep
    split at hstep
    · rename_i e hone
      split at hstep
      · subst hstep
        exact (Frame.refl s).setAnswering fun _ => rfl
      · rename_i hfree
        have hover : ¬ Over s := fun hover => by
          have hclaimed := hok hover.emitted e (by rw [hone]; exact List.mem_singleton.2 rfl)
          exact hfree (by simpa using hclaimed)
        have hclaim : Frame s (s.updateExchange e.challengeRequestId Exchange.claimAnswer) :=
          (Frame.refl s).updateExchange fun _ => rfl
        subst hstep
        exact hclaim.setAnswering fun hyes => absurd hyes hover
    · subst hstep
      exact (Frame.refl s).setAnswering fun _ => rfl
  · cases hstep

variable (id) in
theorem not_over_of_claim {call : Nat} (hclaim : (s.answering call).claim = some id) :
    ¬ Over s := by
  intro hover
  rw [hover.settled.calls call] at hclaim
  cases hclaim

theorem frame_answerSigned {call : Nat} {ok : Bool}
    (hstep : step env s (.answerSigned call ok) = some s') : Frame s s' := by
  dsimp only [step] at hstep
  split at hstep
  · rename_i id hphase
    have hover : ¬ Over s := not_over_of_claim id (by rw [hphase]; rfl)
    rw [Option.some.injEq, State.answerSigned] at hstep
    split at hstep
    · have hpublishing : Frame s (s.updatePublishingState .publishingChallengeAnswer) :=
        (Frame.refl s).before hover rfl rfl ⟨[], by simp [State.updatePublishingState]⟩
      subst hstep
      exact hpublishing.setAnswering fun hyes => absurd hyes hover
    · have hreleased : Frame s (s.updateExchange id Exchange.releaseAnswer) :=
        (Frame.refl s).updateExchange fun _ => rfl
      subst hstep
      exact hreleased.setAnswering fun _ => rfl
  · cases hstep

theorem frame_answerPublished {call : Nat} {ok : Bool}
    (hstep : step env s (.answerPublished call ok) = some s') : Frame s s' := by
  dsimp only [step] at hstep
  split at hstep
  · rename_i id hphase
    have hover : ¬ Over s := not_over_of_claim id (by rw [hphase]; rfl)
    rw [Option.some.injEq, State.answerPublished] at hstep
    split at hstep
    · have hanswered : Frame s (s.updateExchange id Exchange.withAnswer) :=
        (Frame.refl s).updateExchange fun _ => rfl
      have hwaiting : Frame s ((s.updateExchange id Exchange.withAnswer).updatePublishingState
          .waitingChallengeVerification) :=
        hanswered.before hover rfl rfl ⟨[], by simp [State.updatePublishingState]⟩
      subst hstep
      exact (hwaiting.emit rfl).setAnswering fun _ => rfl
    · have hreleased : Frame s (s.updateExchange id Exchange.answerFailed) :=
        (Frame.refl s).updateExchange fun _ => rfl
      have hfailed : Frame s ((s.updateExchange id Exchange.answerFailed).updatePublishingState
          .failed) :=
        hreleased.before hover rfl rfl ⟨[], by simp [State.updatePublishingState]⟩
      subst hstep
      exact hfailed.setAnswering fun _ => rfl
  · cases hstep

theorem not_over_of_loop (hloop : s.loop.isQuiet = false) : ¬ Over s := by
  intro hover
  rw [hover.settled.loop] at hloop
  cases hloop

theorem frame_requestGenerated {generated : Option String}
    (hstep : step env s (.requestGenerated generated) = some s') : Frame s s' := by
  cases generated with
  | none =>
    dsimp only [step] at hstep
    split at hstep
    case h_3 => cases hstep
    all_goals
      cases hstep
      exact (Frame.refl s).setLoop fun _ => rfl
  | some id =>
    dsimp only [step] at hstep
    split at hstep
    · cases hstep
    split at hstep
    case h_3 => cases hstep
    all_goals
      rename_i index hloop
      have hover : ¬ Over s := not_over_of_loop (by rw [hloop]; rfl)
      have hopened : Frame s (s.openExchange env index id) :=
        (Frame.refl s).before hover rfl rfl ⟨_, rfl⟩
      cases hstep
      exact hopened.setLoop fun hyes => absurd hyes hover

theorem frame_subscribed {ok : Bool} {now : Nat}
    (hstep : step env s (.subscribed ok now) = some s') : Frame s s' := by
  dsimp only [step] at hstep
  split at hstep
  case h_5 => cases hstep
  all_goals
    cases hstep
  · refine (Frame.refl s).setLoop fun hover => ?_
    rw [if_pos hover.settled.stopped]
    rfl
  · exact (Frame.refl s).publishFailed
  · refine (Frame.refl s).setLoop fun _ => ?_
    split <;> rfl
  · exact (Frame.refl s).requestFailed.retryLoop

theorem frame_requestPublished {ok : Bool} {now : Nat}
    (hstep : step env s (.requestPublished ok now) = some s') : Frame s s' := by
  dsimp only [step] at hstep
  split at hstep
  case h_5 => cases hstep
  all_goals
    rename_i index id hloop
    cases hstep
  · have hover : ¬ Over s := not_over_of_loop (by rw [hloop]; rfl)
    have hsent : Frame s (s.requestSent id now) := (Frame.refl s).requestSent
    have hwaiting : Frame s ((s.requestSent id now).updatePublishingState .waitingChallenge) :=
      hsent.before hover rfl rfl ⟨[], by simp [State.updatePublishingState]⟩
    exact (hwaiting.emit rfl).setLoop fun _ => rfl
  · exact (Frame.refl s).publishFailed
  · exact (Frame.refl s).republished
  · exact (Frame.refl s).requestFailed.retryLoop

theorem frame_cleanedUp (hstep : step env s .cleanedUp = some s') : Frame s s' := by
  dsimp only [step] at hstep
  split at hstep
  · rename_i code hloop
    have hover : ¬ Over s := not_over_of_loop (by rw [hloop]; rfl)
    have hfailed : Frame s (s.updatePublishingState .failed) :=
      (Frame.refl s).before hover rfl rfl ⟨[], by simp [State.updatePublishingState]⟩
    cases hstep
    exact (hfailed.emit rfl).setLoop fun _ => rfl
  · cases hstep

theorem frame_woke {now : Nat} (hstep : step env s (.woke now) = some s') : Frame s s' := by
  dsimp only [step] at hstep
  split at hstep
  case h_4 => cases hstep
  all_goals
    cases hstep
  · exact (Frame.refl s).firstWaitOver
  · exact (Frame.refl s).retryLoop
  · exact (Frame.refl s).lastWaitOver

/-! ## The verdict -/

/-- Nothing has been recorded under an id that is alone and has recorded nothing. -/
theorem not_recorded (hnone : s.hasVerification id = false) (halone : Alone s id) :
    ¬ Recorded s := by
  rintro ⟨e, he, hsome⟩
  by_cases hid : e.challengeRequestId = id
  · have hnot := List.any_eq_false.1 hnone e he
    simp [hid, hsome] at hnot
  · rw [halone e he hid] at hsome
    cases hsome

/-- The handler of the verdict is the only one, and nothing has been emitted before. -/
theorem ended_emitVerification {challengeSuccess : Bool} (hinv : Inv s)
    (hrecorded : Recorded s) (hemitted : s.verdictEmitted = false)
    (honly : ∀ other success, s.handler other = .updatingComment success → other = d)
    (hquiet : Quiet s) : Ended (s.emitVerification d challengeSuccess) := by
  have hnone : s.events.filter Event.isVerdict = [] := by
    by_contra hne
    rw [State.verdictEmitted_iff.2 hne] at hemitted
    cases hemitted
  have hcalls : ∀ call, (s.answering call).claim = none := by
    intro call
    cases hclaim : (s.answering call).claim with
    | none => rfl
    | some id =>
      obtain ⟨e, he, heq⟩ := List.mem_map.1 (hinv.claimed call id hclaim).1
      rw [Exchange.claim, Prod.mk.injEq, Prod.mk.injEq] at heq
      have hanswered := hquiet.1 e (List.mem_filter.1 he).1 heq.2.1
      rw [heq.2.2] at hanswered
      cases hanswered
  have hhandler : ∀ other success,
      (s.emitVerification d challengeSuccess).handler other ≠ .updatingComment success := by
    intro other success hother
    by_cases heq : other = d
    · rw [heq, State.emitVerification, State.handler_setHandler_self] at hother
      cases hother
    · rw [State.emitVerification, State.handler_setHandler_of_ne _ _ heq] at hother
      exact heq (honly other success hother)
  constructor
  case oneVerdict =>
    show ((s.events ++ [_]).filter _).length ≤ 1
    rw [List.filter_append, hnone]
    exact Nat.le_refl 1
  case pending => exact fun other success hother => absurd hother (hhandler other success)
  case recorded => exact fun _ => hrecorded
  case settled => exact fun _ => ⟨rfl, hquiet.2, hcalls⟩
  case state =>
    intro id success hmem
    rcases List.mem_append.1 hmem with hold | hnew
    · have hfilter := List.mem_filter.2 ⟨hold, (rfl : Event.isVerdict _ = true)⟩
      rw [hnone] at hfilter
      exact absurd hfilter List.not_mem_nil
    · rw [List.mem_singleton, Event.challengeverification.injEq] at hnew
      rw [hnew.2]
      rfl

theorem inv_ended_recordVerification {challengeSuccess hasComment : Bool} (h : Ended s)
    (hinv : Inv s)
    (hok : s.hasVerification d.challengeRequestId = false →
      Alone s d.challengeRequestId ∧ (hasComment = false → Quiet s))
    (hknown : d.challengeRequestId ∈ s.ids) :
    Ended (s.recordVerification d challengeSuccess hasComment) := by
  rw [State.recordVerification]
  split
  · exact h.frame (Frame.refl s).finish
  · rename_i hnew
    rw [Bool.not_eq_true] at hnew
    obtain ⟨halone, hquiet⟩ := hok hnew
    have hnone := not_recorded hnew halone
    have hemitted : s.verdictEmitted = false := by
      by_contra hyes
      exact hnone (h.recorded (Or.inl (by simpa using hyes)))
    have hhandler : ∀ other success, s.handler other ≠ .updatingComment success :=
      fun other success hother => hnone (h.recorded (Or.inr ⟨other, success, hother⟩))
    have hrecorded : Recorded (s.updateExchange d.challengeRequestId
        (Exchange.withVerification challengeSuccess)) := by
      obtain ⟨e, he, hid⟩ := List.mem_map.1 hknown
      refine ⟨e.withVerification challengeSuccess, List.mem_map.2 ⟨e, he, ?_⟩, rfl⟩
      rw [if_pos hid]
    split
    · constructor
      case oneVerdict => exact h.oneVerdict
      case pending =>
        intro other success hother
        refine ⟨hemitted, ?_⟩
        have honly : ∀ third success', ((s.updateExchange d.challengeRequestId
            (Exchange.withVerification challengeSuccess)).setHandler d
              (.updatingComment challengeSuccess)).handler third = .updatingComment success' →
                third = d := by
          intro third success' hthird
          by_contra hne
          rw [State.handler_setHandler_of_ne _ _ hne] at hthird
          exact hhandler third success' hthird
        rw [honly other success hother]
        exact honly
      case recorded => exact fun _ => hrecorded
      case settled =>
        intro hyes
        cases hemitted.symm.trans hyes
      case state =>
        intro id success hmem
        have hyes : s.verdictEmitted = true := List.any_eq_true.2 ⟨_, hmem, rfl⟩
        rw [hemitted] at hyes
        cases hyes
    · rename_i hcomment
      have hinv' : Inv (s.updateExchange d.challengeRequestId
          (Exchange.withVerification challengeSuccess)) :=
        hinv.neutral ((Neutral.refl s).updateExchange fun _ => ⟨rfl, rfl⟩)
      have hquiet' : Quiet (s.updateExchange d.challengeRequestId
          (Exchange.withVerification challengeSuccess)) := by
        obtain ⟨hanswers, hloop⟩ := hquiet (by simpa using hcomment)
        refine ⟨fun e he hinFlight => ?_, hloop⟩
        obtain ⟨old, hold, rfl⟩ := List.mem_map.1 he
        split at hinFlight
        · rename_i hid
          rw [if_pos hid]
          exact hanswers old hold hinFlight
        · rename_i hid
          rw [if_neg hid]
          exact hanswers old hold hinFlight
      exact ended_emitVerification hinv' hrecorded hemitted
        (fun other success hother => absurd hother (hhandler other success)) hquiet'

theorem ended_verified {valid : Bool} (h : Ended s) (hinv : Inv s)
    (hok : Orderly s (.verified d valid)) (hstep : step env s (.verified d valid) = some s') :
    Ended s' := by
  obtain ⟨rfl, hquiet⟩ := hok
  dsimp only [step] at hstep
  split at hstep
  case h_1 | h_2 => contradiction
  case h_6 => cases hstep
  all_goals
    cases hstep
  · exact h.frame ((Frame.refl s).setHandler nofun)
  · exact h.frame ((Frame.refl s).setHandler nofun)
  · rename_i challengeSuccess encrypted hnot hphase _ hkind
    have hplain : d.isDecrypted = false := by
      rw [Delivery.isDecrypted, hkind]
      cases challengeSuccess with
      | false => rfl
      | true =>
        cases encrypted with
        | false => rfl
        | true => exact (hnot rfl rfl).elim
    refine inv_ended_recordVerification h hinv (fun hnew => ?_)
      (hinv.known d (by rw [hphase]; rfl))
    obtain ⟨halone, hquiet⟩ := hquiet hplain hnew
    exact ⟨halone, fun _ => hquiet⟩

theorem ended_verificationDecrypted {result : Except String Bool} (h : Ended s) (hinv : Inv s)
    (hok : Orderly s (.verificationDecrypted d result))
    (hstep : step env s (.verificationDecrypted d result) = some s') : Ended s' := by
  dsimp only [step] at hstep
  split at hstep
  · rename_i hphase _
    cases hstep
    exact inv_ended_recordVerification h hinv hok (hinv.known d (by rw [hphase]; rfl))
  · cases hstep
    exact h.frame ((Frame.refl s).emit rfl).finish
  · cases hstep

theorem ended_commentUpdated {ok : Bool} (h : Ended s) (hinv : Inv s)
    (hok : Orderly s (.commentUpdated d ok)) (hstep : step env s (.commentUpdated d ok) = some s') :
    Ended s' := by
  dsimp only [step] at hstep
  split at hstep
  · rename_i challengeSuccess hphase
    obtain ⟨hemitted, honly⟩ := h.pending d challengeSuccess hphase
    cases hstep
    exact ended_emitVerification hinv (h.recorded (Or.inr ⟨d, challengeSuccess, hphase⟩)) hemitted
      honly hok
  · cases hstep
    exact h.frame (Frame.refl s).finish
  · cases hstep

/-- **Every orderly step keeps the verdict.** -/
theorem ended_step {a : Action} (h : Ended s) (hinv : Inv s) (hok : Orderly s a)
    (hstep : step env s a = some s') : Ended s' := by
  cases a with
  | deliver d => exact h.frame (frame_deliver hstep)
  | verified d valid => exact ended_verified h hinv hok hstep
  | challengeDecrypted d result => exact h.frame (frame_challengeDecrypted hok hstep)
  | verificationDecrypted d result => exact ended_verificationDecrypted h hinv hok hstep
  | commentUpdated d ok => exact ended_commentUpdated h hinv hok hstep
  | publishChallengeAnswers call => exact h.frame (frame_publishChallengeAnswers hok hstep)
  | answerSigned call ok => exact h.frame (frame_answerSigned hstep)
  | answerPublished call ok => exact h.frame (frame_answerPublished hstep)
  | requestGenerated id => exact h.frame (frame_requestGenerated hstep)
  | subscribed ok now => exact h.frame (frame_subscribed hstep)
  | requestPublished ok now => exact h.frame (frame_requestPublished hstep)
  | cleanedUp => exact h.frame (frame_cleanedUp hstep)
  | woke now => exact h.frame (frame_woke hstep)

theorem ended_initial : Ended initial where
  oneVerdict := Nat.zero_le 1
  pending _ _ hd := absurd hd nofun
  recorded hsome := by
    rcases hsome with hemitted | ⟨_, _, hd⟩
    · cases hemitted
    · cases hd
  settled hemitted := absurd hemitted Bool.false_ne_true
  state _ _ hmem := absurd hmem List.not_mem_nil

end Steps

/-! ## Every run -/

/-- What one `publish()` should come to. -/
structure Settles (s : State) : Prop where
  oneChallenge : (s.events.filter Event.isChallenge).length ≤ 1
  oneAnswer : (s.events.filter Event.isAnswer).length ≤ 1
  oneVerdict : (s.events.filter Event.isVerdict).length ≤ 1
  lastWord : ∀ id challengeSuccess, .challengeverification id challengeSuccess ∈ s.events →
    s.publishingState = State.verdictState challengeSuccess

/-- **One challenge, one answer, one verdict that stays.**  The first two hold in every run, the
rest in those whose steps are orderly. -/
theorem publication_settles {env : Env} {as : List Action} {s : State}
    (hrun : Run (step env) anyStep initial as s) :
    (s.events.filter Event.isChallenge).length ≤ 1 ∧
    (s.events.filter Event.isAnswer).length ≤ 1 ∧
    (Run (step env) Orderly initial as s → Settles s) := by
  have hinv : Inv s := hrun.invariant (fun _ _ _ h _ hstep => inv_step h hstep) inv_initial
  refine ⟨hinv.oneChallenge, hinv.oneAnswer, fun horderly => ?_⟩
  have hended : Inv s ∧ Ended s := horderly.invariant (I := fun s => Inv s ∧ Ended s)
    (fun _ _ _ h hok hstep => ⟨inv_step h.1 hstep, ended_step h.2 h.1 hok hstep⟩)
    ⟨inv_initial, ended_initial⟩
  exact ⟨hinv.oneChallenge, hinv.oneAnswer, hended.2.oneVerdict, hended.2.state⟩

/-! ## Runs of one publication -/

instance (s : State) : Decidable (Quiet s) := inferInstanceAs (Decidable (_ ∧ _))

instance (s : State) (id : String) : Decidable (Alone s id) :=
  inferInstanceAs (Decidable (∀ e ∈ s.exchanges, _ → _))

instance (s : State) (a : Action) : Decidable (Orderly s a) := by
  unfold Orderly
  split <;> infer_instance

def twoProviders : Env where
  providers := ["pubsubprovider.xyz", "rannithepleb.com"]
  setProviderFailureThresholdSeconds := 60

/-- The request of the first provider, up to the wait for its challenge. -/
def firstRequest : List Action :=
  [.requestGenerated (some "a"), .subscribed true 0, .requestPublished true 0]

/-- The challenge of the first provider. -/
def challengeOfA : Delivery := ⟨0, "a", .challenge⟩

def verdictOfA : Delivery := ⟨1, "a", .verification true false⟩

def verdictOfB : Delivery := ⟨2, "b", .verification false false⟩

/-- The publication is challenged, answers and is accepted. -/
def acceptedPublication : List Action :=
  firstRequest ++ [.deliver challengeOfA, .verified challengeOfA true,
    .challengeDecrypted challengeOfA (.ok ()), .publishChallengeAnswers 0, .answerSigned 0 true,
    .answerPublished 0 true, .deliver verdictOfA, .verified verdictOfA true, .woke 20]

/-- The verdict on the first request comes while that on the second is being verified. -/
def twoVerdicts : List Action :=
  firstRequest ++ [.woke 20, .requestGenerated (some "b"), .subscribed true 20,
    .requestPublished true 20, .deliver verdictOfA, .deliver verdictOfB, .verified verdictOfA true,
    .verified verdictOfB true]

/-- The verdict comes before the publish of the request has returned. -/
def earlyVerdict : List Action :=
  [.requestGenerated (some "a"), .subscribed true 0, .deliver verdictOfA, .verified verdictOfA true,
    .requestPublished true 0]

theorem publication_settles_accepted :
    ∃ s, Run (step twoProviders) Orderly initial acceptedPublication s ∧
      s.publishingState = .succeeded ∧ Settles s := by
  obtain ⟨s, hs, hsucceeded⟩ : ∃ s, execOk (step twoProviders) Orderly initial
      acceptedPublication = some s ∧ s.publishingState = .succeeded := by
    refine ⟨_, rfl, ?_⟩
    decide +kernel
  have hrun := Run.of_execOk hs
  exact ⟨s, hrun, hsucceeded, (publication_settles (hrun.mono fun _ _ _ => trivial)).2.2 hrun⟩

/-- **A second verdict, and a verdict that is overwritten.**  The exchanges record their verdicts
each for itself, so a failed one turns a publication that succeeded into one that failed; and a
verdict that comes before the publish of the request has returned is followed by the wait for the
challenge. -/
theorem publication_unsettled :
    (∃ s, Run (step twoProviders) anyStep initial twoVerdicts s ∧
      (s.events.filter Event.isVerdict).length = 2 ∧ s.publishingState = .failed) ∧
    (∃ s, Run (step twoProviders) anyStep initial earlyVerdict s ∧
      .challengeverification "a" true ∈ s.events ∧ s.publishingState = .waitingChallenge) ∧
    ¬ ∀ env as s, Run (step env) anyStep initial as s → Settles s := by
  have htwo : ∃ s, exec (step twoProviders) initial twoVerdicts = some s ∧
      (s.events.filter Event.isVerdict).length = 2 ∧ s.publishingState = .failed := by
    refine ⟨_, rfl, ?_⟩
    decide +kernel
  have hearly : ∃ s, exec (step twoProviders) initial earlyVerdict = some s ∧
      .challengeverification "a" true ∈ s.events ∧ s.publishingState = .waitingChallenge := by
    refine ⟨_, rfl, ?_⟩
    decide +kernel
  obtain ⟨s, hs, hlength, hfailed⟩ := htwo
  obtain ⟨t, ht, hmem, hwaiting⟩ := hearly
  refine ⟨⟨s, Run.of_exec hs, hlength, hfailed⟩, ⟨t, Run.of_exec ht, hmem, hwaiting⟩, fun h => ?_⟩
  have hone := (h twoProviders twoVerdicts s (Run.of_exec hs)).oneVerdict
  rw [hlength] at hone
  exact absurd hone (by decide)

end Publisher
end Pkc

import Pkc.Exchanges.Community

/-!
# What an orderly step keeps

An exchange should end with one CHALLENGEVERIFICATION, and a valid answer that arrives in time
should be the one it goes on with.

* `Orderly` is the condition on a step: an exchange that is open when a message for it arrives is
  still marked as ongoing; no answer to an open exchange fails its check or its parse or outruns the
  registration of the promise; no handler of an answer publishes over an open exchange of the same
  id; no promise of an open exchange expires or is pushed out; no exchange times out while an answer
  to it is being checked; and nothing rejects while the signature of a publication is checked or its
  failure published.
* `Inv` ties the caches to the handlers: an open exchange is the only one of its id, and one that
  waits for its answer has its promise registered.
* `Moves` is what the handler of a delivery may do in one step, and `Inv.move` that the invariant is
  kept by it.
-/

set_option autoImplicit false

namespace Pkc
namespace Exchanges

open Runs

/-! ## The condition -/

/-- The handler of an answer has not come to its end. -/
def Phase.beingChecked : Phase → Bool
  | .verifying | .decrypting => true
  | _ => false

/-- No answer that is in time for the exchange is still being checked. -/
def NotBeingAnswered (s : State) (d : Delivery) : Prop :=
  ∀ a ∈ s.delivered, s.exchangeOf a = some d → s.onTime a = true → (s.phase a).beingChecked = false

/-- Setting the key of `id` pushes no open exchange out of the cache. -/
def KeepsOpen {α : Type} (s : State) (cache : LruCache String α) (id : String) : Prop :=
  ∀ out ∈ cache.evicted 1000 id, s.openExchange out = none

/-- The CHALLENGE has been handed to pubsub and the promise of its answer is not registered. -/
def Phase.isPublishingChallenge : Phase → Bool
  | .publishingChallenge _ => true
  | _ => false

def Phase.isRefusingSignature : Phase → Bool
  | .refusingSignature _ _ => true
  | _ => false

/-- The condition on a step. -/
def Orderly (env : Env) (s : State) : Action → Prop
  | .deliver d => s.openExchange d.id ≠ none → s.ongoingChallengeExchanges.has d.id = true
  | .verified a timestampInRange =>
    a.isRequest = false → verifyChallengeMessage env a.message timestampInRange = false →
      s.openExchange a.id = none
  | .decrypted a (.error _) => s.exchangeOf a = none
  | .decrypted a (.ok _) =>
    s.onTime a = true → ∀ d ∈ s.exchangeOf a, (s.phase d).isPublishingChallenge = false
  | .challengePublished d true => KeepsOpen s s.challengeAnswerResolveReject d.id
  | .challengePublished d false => NotBeingAnswered s d
  | .timedOut d => NotBeingAnswered s d
  | .signatureRefused _ reason => reason.isSome = true
  | .verificationPublished a ok => (a.isRequest = false → s.openExchange a.id = none) ∧
    (ok = false → (s.phase a).isRefusingSignature = false)
  | .expire .resolveReject id => s.openExchange id = none
  | _ => True

/-! ## The invariant -/

/-- The exchange has not been answered. -/
def Phase.beforeAnswer : Phase → Bool
  | .notDelivered | .verifying | .parsing | .waitingForInFlightExchange _ | .validating _
  | .challenging _ | .publishingChallenge _ | .waitingForAnswer _ none => true
  | _ => false

/-- Only the handler of a request comes here. -/
def Phase.ofRequest : Phase → Bool
  | .parsing | .waitingForInFlightExchange _ | .validating _ | .challenging _
  | .publishingChallenge _ | .waitingForAnswer _ _ | .checkingAnswers _ _ | .storing _
  | .refusingSignature _ _ => true
  | _ => false

/-- The answers the exchange goes on with. -/
def Phase.answers : Phase → Option Answers
  | .waitingForAnswer _ answers => answers
  | .checkingAnswers _ answers => some answers
  | _ => none

/-- The verdicts that have been published. -/
structure Logged (s : State) : Prop where
  once : ∀ d, (s.verifications.filter fun v => v.cause = d).length =
    if s.phase d = .completed then 1 else 0
  causes : ∀ v ∈ s.verifications, s.exchangeOf v.cause = none

/-- The promises of the answers. -/
structure Promised (s : State) : Prop where
  registered : ∀ d signature answers, s.phase d = .waitingForAnswer signature answers →
    s.challengeAnswerResolveReject.lookup d.id = some d
  key : ∀ entry ∈ s.challengeAnswerResolveReject, entry.value.id = entry.key

structure Inv (env : Env) (s : State) : Prop where
  logged : Logged s
  promised : Promised s
  delivered : ∀ d, s.phase d ≠ .notDelivered → d ∈ s.delivered
  unique : ∀ d e, d.isRequest = true → e.isRequest = true → (s.phase d).isOpen = true →
    (s.phase e).isOpen = true → d.id = e.id → d = e
  publishing : ∀ d signature verdict overPubsub,
    s.phase d = .publishingVerification signature verdict overPubsub → s.exchangeOf d = none
  exchange : ∀ a d, s.exchangeOf a = some d →
    a.isRequest = false ∧ d.isRequest = true ∧ d.id = a.id
  decrypting : ∀ a, s.phase a = .decrypting → a.isRequest = false ∧ a.signed env = true
  ofRequest : ∀ d, (s.phase d).ofRequest = true → d.isRequest = true
  unanswered : ∀ d, (s.phase d).beforeAnswer = true → s.answeredBy d = none
  answers : ∀ d answers, (s.phase d).answers = some answers →
    ∃ a, s.answeredBy d = some (a, answers)
  answeredBy : ∀ d a answers, s.answeredBy d = some (a, answers) →
    a ∈ s.delivered ∧ a.isRequest = false ∧ a.signed env = true ∧ a.id = d.id
  checked : ∀ a d, s.exchangeOf a = some d → s.onTime a = true →
    (s.phase a).beingChecked = true → (s.phase d).awaitsAnswer = true ∨ s.answeredBy d ≠ none
  taken : ∀ a d, s.exchangeOf a = some d → s.onTime a = true →
    s.phase a = .answered ∨ s.phase a = .lost → s.answeredBy d ≠ none
  notAbandoned : ∀ d, s.phase d ≠ .abandoned

section Handlers

variable {env : Env} {s s' : State} {d e : Delivery} {phase : Phase} {id : String}

theorem Inv.exchangeOf_request (h : Inv env s) (hd : d.isRequest = true) :
    s.exchangeOf d = none := by
  cases hexchange : s.exchangeOf d with
  | none => rfl
  | some e =>
    rw [(h.exchange d e hexchange).1] at hd
    cases hd

theorem Inv.ne_of_openExchange (h : Inv env s) (hnone : s.openExchange id = none)
    (hd : d.isRequest = true) (hopen : (s.phase d).isOpen = true) : d.id ≠ id := by
  rintro rfl
  have hmem := h.delivered d (by rintro heq; rw [heq] at hopen; cases hopen)
  have hno := List.find?_eq_none.1 hnone d hmem
  simp [hd, hopen] at hno

theorem of_openExchange (h : s.openExchange id = some d) :
    d.isRequest = true ∧ d.id = id ∧ (s.phase d).isOpen = true := by
  have hd := List.find?_some h
  simpa [and_assoc] using hd

theorem awaitsAnswer_of_beingChecked (h : phase.beingChecked = true) :
    phase.awaitsAnswer = false := by
  cases phase with
  | verifying => rfl
  | decrypting => rfl
  | _ => cases h

/-! ## A handler goes on -/

/-- The history is left as it is. -/
structure Keeps (s s' : State) : Prop where
  delivered : s'.delivered = s.delivered
  exchangeOf : s'.exchangeOf = s.exchangeOf
  onTime : s'.onTime = s.onTime
  answeredBy : s'.answeredBy = s.answeredBy

/-- What handler `d` may do when it goes on in `phase`. -/
structure Moves (env : Env) (s : State) (d : Delivery) (phase : Phase) : Prop where
  delivered : d ∈ s.delivered
  isOpen : d.isRequest = true → phase.isOpen = true → (s.phase d).isOpen = true
  publishing : ∀ signature verdict overPubsub,
    phase = .publishingVerification signature verdict overPubsub → s.exchangeOf d = none
  decrypting : phase = .decrypting → d.isRequest = false ∧ d.signed env = true
  ofRequest : phase.ofRequest = true → d.isRequest = true
  beforeAnswer : phase.beforeAnswer = true → (s.phase d).beforeAnswer = true
  answers : ∀ answers, phase.answers = some answers → (s.phase d).answers = some answers
  beingChecked : phase.beingChecked = true → (s.phase d).beingChecked = true
  awaitsAnswer : (s.phase d).awaitsAnswer = true → phase.awaitsAnswer = true ∨
    s.answeredBy d ≠ none ∨ NotBeingAnswered s d
  taken : phase = .answered ∨ phase = .lost → ∀ e, s.exchangeOf d = some e → s.onTime d = true →
    s.answeredBy e ≠ none
  notAbandoned : phase ≠ .abandoned

theorem Inv.move (h : Inv env s) (hmoves : Moves env s d phase) (hkeeps : Keeps s s')
    (hphase : s'.phase = Function.update s.phase d phase) (hlogged : Logged s')
    (hpromised : Promised s') : Inv env s' := by
  have hself : s'.phase d = phase := by rw [hphase, Function.update_self]
  have hother : ∀ e, e ≠ d → s'.phase e = s.phase e := by
    intro e he
    rw [hphase, Function.update_of_ne he]
  have hopen : ∀ e, e.isRequest = true → (s'.phase e).isOpen = true →
      (s.phase e).isOpen = true := by
    intro e he hopen
    by_cases heq : e = d
    · subst heq
      exact hmoves.isOpen he (hself ▸ hopen)
    · exact hother e heq ▸ hopen
  constructor
  case logged => exact hlogged
  case promised => exact hpromised
  case delivered =>
    intro e he
    rw [hkeeps.delivered]
    by_cases heq : e = d
    · exact heq ▸ hmoves.delivered
    · exact h.delivered e (hother e heq ▸ he)
  case unique =>
    intro e e' he he' hopen₁ hopen₂
    exact h.unique e e' he he' (hopen e he hopen₁) (hopen e' he' hopen₂)
  case publishing =>
    intro e signature verdict overPubsub he
    rw [hkeeps.exchangeOf]
    by_cases heq : e = d
    · subst heq
      exact hmoves.publishing signature verdict overPubsub (hself ▸ he)
    · exact h.publishing e signature verdict overPubsub (hother e heq ▸ he)
  case exchange => rw [hkeeps.exchangeOf]; exact h.exchange
  case decrypting =>
    intro e he
    by_cases heq : e = d
    · subst heq
      exact hmoves.decrypting (hself ▸ he)
    · exact h.decrypting e (hother e heq ▸ he)
  case ofRequest =>
    intro e he
    by_cases heq : e = d
    · subst heq
      exact hmoves.ofRequest (hself ▸ he)
    · exact h.ofRequest e (hother e heq ▸ he)
  case unanswered =>
    intro e he
    rw [hkeeps.answeredBy]
    by_cases heq : e = d
    · subst heq
      exact h.unanswered e (hmoves.beforeAnswer (hself ▸ he))
    · exact h.unanswered e (hother e heq ▸ he)
  case answers =>
    intro e answers he
    rw [hkeeps.answeredBy]
    by_cases heq : e = d
    · subst heq
      exact h.answers e answers (hmoves.answers answers (hself ▸ he))
    · exact h.answers e answers (hother e heq ▸ he)
  case answeredBy => rw [hkeeps.answeredBy, hkeeps.delivered]; exact h.answeredBy
  case checked =>
    intro a e hexchange honTime hchecked
    rw [hkeeps.exchangeOf] at hexchange
    rw [hkeeps.onTime] at honTime
    rw [hkeeps.answeredBy]
    have hchecked' : (s.phase a).beingChecked = true := by
      by_cases heq : a = d
      · subst heq
        exact hmoves.beingChecked (hself ▸ hchecked)
      · exact hother a heq ▸ hchecked
    rcases h.checked a e hexchange honTime hchecked' with hawaits | hanswered
    · by_cases heq : e = d
      · subst heq
        rcases hmoves.awaitsAnswer hawaits with hawaits' | hanswered | hnone
        · exact Or.inl (hself ▸ hawaits')
        · exact Or.inr hanswered
        · have hmem := h.delivered a (by rintro hnot; rw [hnot] at hchecked'; cases hchecked')
          rw [hnone a hmem hexchange honTime] at hchecked'
          cases hchecked'
      · exact Or.inl (hother e heq ▸ hawaits)
    · exact Or.inr hanswered
  case taken =>
    intro a e hexchange honTime htaken
    rw [hkeeps.exchangeOf] at hexchange
    rw [hkeeps.onTime] at honTime
    rw [hkeeps.answeredBy]
    by_cases heq : a = d
    · subst heq
      exact hmoves.taken (hself ▸ htaken) e hexchange honTime
    · exact h.taken a e hexchange honTime (hother a heq ▸ htaken)
  case notAbandoned =>
    intro e
    by_cases heq : e = d
    · rw [heq, hself]
      exact hmoves.notAbandoned
    · rw [hother e heq]
      exact h.notAbandoned e

/-- The log of a handler that neither starts nor ends with a published verdict. -/
theorem Logged.move (h : Logged s) (hverifications : s'.verifications = s.verifications)
    (hexchangeOf : s'.exchangeOf = s.exchangeOf)
    (hphase : s'.phase = Function.update s.phase d phase)
    (hcompleted : phase ≠ .completed ∧ s.phase d ≠ .completed) : Logged s' where
  once e := by
    rw [hverifications, h.once e, hphase]
    by_cases heq : e = d
    · subst heq
      rw [Function.update_self, if_neg hcompleted.1, if_neg hcompleted.2]
    · rw [Function.update_of_ne heq]
  causes v hv := by
    rw [hexchangeOf]
    exact h.causes v (hverifications ▸ hv)

/-- The promises, when those of an id are deleted that no other open exchange has. -/
theorem Promised.delete (h : Inv env s)
    (hresolve : s'.challengeAnswerResolveReject = s.challengeAnswerResolveReject.delete id)
    (hphase : s'.phase = Function.update s.phase d phase)
    (hwaiting : ∀ signature answers, phase ≠ .waitingForAnswer signature answers)
    (hid : ∀ e, e ≠ d → e.isRequest = true → (s.phase e).isOpen = true → e.id ≠ id) :
    Promised s' where
  registered e signature answers he := by
    rw [hphase] at he
    by_cases heq : e = d
    · subst heq
      rw [Function.update_self] at he
      exact absurd he (hwaiting signature answers)
    · rw [Function.update_of_ne heq] at he
      have hrequest := h.ofRequest e (by rw [he]; rfl)
      have hne := hid e heq hrequest (by rw [he]; rfl)
      rw [hresolve, LruCache.lookup_delete_of_ne hne]
      exact h.promised.registered e signature answers he
  key entry hentry := by
    rw [hresolve] at hentry
    exact h.promised.key entry (LruCache.mem_of_mem_delete hentry)

/-- The promises, when they are left as they are. -/
theorem Promised.move (h : Promised s)
    (hresolve : s'.challengeAnswerResolveReject = s.challengeAnswerResolveReject)
    (hphase : s'.phase = Function.update s.phase d phase)
    (hwaiting : ∀ signature answers, phase ≠ .waitingForAnswer signature answers) :
    Promised s' where
  registered e signature answers he := by
    rw [hphase] at he
    by_cases heq : e = d
    · subst heq
      rw [Function.update_self] at he
      exact absurd he (hwaiting signature answers)
    · rw [Function.update_of_ne heq] at he
      rw [hresolve]
      exact h.registered e signature answers he
  key entry hentry := h.key entry (hresolve ▸ hentry)

/-- A phase that a handler can be in between two awaits of its own: it neither waits for an answer
nor has it published. -/
def Phase.isPlain : Phase → Bool
  | .waitingForAnswer _ _ | .completed => false
  | _ => true

theorem Phase.ne_of_isPlain (h : phase.isPlain = true) :
    phase ≠ .completed ∧ ∀ signature answers, phase ≠ .waitingForAnswer signature answers := by
  constructor
  · rintro rfl
    cases h
  · rintro signature answers rfl
    cases h

/-- A handler goes on and its promises stay as they are. -/
theorem Inv.setPhase (h : Inv env s) (hmoves : Moves env s d phase) (hplain : phase.isPlain = true)
    (hcompleted : s.phase d ≠ .completed) : Inv env (s.setPhase d phase) := by
  obtain ⟨hnotCompleted, hwaiting⟩ := Phase.ne_of_isPlain hplain
  exact h.move hmoves ⟨rfl, rfl, rfl, rfl⟩ rfl
    (h.logged.move rfl rfl rfl ⟨hnotCompleted, hcompleted⟩) (h.promised.move rfl rfl hwaiting)

/-- The handler of a request goes on. -/
theorem Inv.moves_request (h : Inv env s) (hd : d.isRequest = true)
    (hopen : (s.phase d).isOpen = true)
    (hnotAnswer : phase ≠ .decrypting ∧ phase ≠ .answered ∧ phase ≠ .lost ∧
      phase.beingChecked = false) (hnotAbandoned : phase ≠ .abandoned)
    (hbefore : phase.beforeAnswer = true → (s.phase d).beforeAnswer = true)
    (hanswers : ∀ answers, phase.answers = some answers → (s.phase d).answers = some answers)
    (hawaits : (s.phase d).awaitsAnswer = true → phase.awaitsAnswer = true ∨
      NotBeingAnswered s d) : Moves env s d phase where
  delivered := h.delivered d (by rintro hp; rw [hp] at hopen; cases hopen)
  isOpen _ _ := hopen
  publishing _ _ _ _ := h.exchangeOf_request hd
  decrypting hp := absurd hp hnotAnswer.1
  ofRequest _ := hd
  beforeAnswer := hbefore
  answers := hanswers
  beingChecked hp := by
    rw [hnotAnswer.2.2.2] at hp
    cases hp
  awaitsAnswer hp := (hawaits hp).imp_right Or.inr
  taken hp := by
    rcases hp with hp | hp
    · exact absurd hp hnotAnswer.2.1
    · exact absurd hp hnotAnswer.2.2.1
  notAbandoned := hnotAbandoned

/-- The handler of an answer goes on. -/
theorem Inv.moves_answer (h : Inv env s) (hd : d.isRequest = false)
    (hphase : (s.phase d).beingChecked = true)
    (hnotRequest : phase.ofRequest = false ∧ phase.beforeAnswer = false ∧ phase.answers = none ∧
      phase ≠ .abandoned)
    (hdecrypting : phase = .decrypting → d.signed env = true)
    (hpublishing : (∃ signature verdict overPubsub,
      phase = .publishingVerification signature verdict overPubsub) → s.exchangeOf d = none)
    (htaken : phase = .answered ∨ phase = .lost → ∀ e, s.exchangeOf d = some e →
      s.onTime d = true → s.answeredBy e ≠ none) : Moves env s d phase where
  delivered := h.delivered d (by rintro hp; rw [hp] at hphase; cases hphase)
  isOpen hp := by
    rw [hd] at hp
    cases hp
  publishing signature verdict overPubsub hp := hpublishing ⟨signature, verdict, overPubsub, hp⟩
  decrypting hp := ⟨hd, hdecrypting hp⟩
  ofRequest hp := by
    rw [hnotRequest.1] at hp
    cases hp
  beforeAnswer hp := by
    rw [hnotRequest.2.1] at hp
    cases hp
  answers answers hp := by
    rw [hnotRequest.2.2.1] at hp
    cases hp
  beingChecked _ := hphase
  awaitsAnswer hp := by
    rw [awaitsAnswer_of_beingChecked hphase] at hp
    cases hp
  taken := htaken
  notAbandoned := hnotRequest.2.2.2

/-- A handler comes to its end. -/
theorem Inv.moves_end (h : Inv env s) (hdelivered : s.phase d ≠ .notDelivered)
    (hawaits : (s.phase d).awaitsAnswer = false) (hphase : phase = .threw ∨ phase = .completed) :
    Moves env s d phase := by
  refine ⟨h.delivered d hdelivered, ?_, ?_, ?_, ?_, ?_, ?_, ?_, ?_, ?_, ?_⟩
  case refine_8 =>
    intro hp
    rw [hawaits] at hp
    cases hp
  all_goals rcases hphase with rfl | rfl <;> simp [Phase.isOpen, Phase.ofRequest,
    Phase.beforeAnswer, Phase.answers, Phase.beingChecked]

end Handlers

end Exchanges
end Pkc

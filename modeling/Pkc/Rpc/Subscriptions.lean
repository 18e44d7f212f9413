import Pkc.Library.Runs
import Pkc.Library.Tasks

/-!
# Update subscriptions over RPC

An instance of a community or a comment that updates over RPC mirrors the instance that is tracked
for it, which holds the server's subscription.  `update()` creates that instance if there is none,
and `stop()` stops it when the last mirror is gone.

* `step` is what an `update()` or a `stop()` does up to its next `await`: the creation of the
  tracked instance, the round trip of the subscribe or of the unsubscribe, the `stop()` of another
  instance.  The two implementations differ in when they change the state, and in when they untrack.
* An instance whose mirrored one is stopped is stopped by its listener; that is a `stop()` like any
  other.  What the server notifies a subscription of is left out, and so are the communities that
  run on the server.
-/

set_option autoImplicit false

namespace Pkc
namespace Rpc
namespace Subscriptions

open Runs Tasks

/-! ## The state -/

inductive Kind
  | community
  | comment
deriving DecidableEq

structure Config (I : Type) where
  kind : I → Kind
  /-- `_sharesRequestedIdentityWith` -/
  shares : I → I → Bool

/-- What is left of a call when what it awaits is over: it forgets what its instance mirrors, and
sets its state to "stopped" if it has not done so before. -/
structure Rest (I : Type) where
  instance_ : I
  setsStopped : Bool
deriving DecidableEq

/-- The calls in flight, by what they await. -/
inductive Call (I : Type)
  /-- `update()` of an instance for which none is tracked awaits the new one. -/
  | creating (i : I)
  /-- `update()` of the first awaits the subscription of the second. -/
  | subscribing (i k : I)
  /-- `stop()` is about to run; it was called by the `stop()` of a mirror, or by none. -/
  | stopping (k : I) (rests : List (Rest I))
  | unsubscribing (k : I) (id : Nat) (rests : List (Rest I))
  | finishing (rests : List (Rest I))

structure State (I A T : Type) where
  created : I → Bool := fun _ => false
  /-- The state is "updating", and not "stopped". -/
  updating : I → Bool := fun _ => false
  updateRpcSubscriptionId : I → Option Nat := fun _ => none
  /-- The instance whose handlers are attached to the subscription. -/
  handlers : Nat → Option I := fun _ => none
  mirrored : I → Option I := fun _ => none
  numOfListeners : I → Int := fun _ => 0
  tracked : I → Bool := fun _ => false
  aliases : I → List A := fun _ => []
  /-- The tracked instance that owns an alias. -/
  owner : A → Option I := fun _ => none
  /-- How many subscriptions the server has issued. -/
  issued : Nat := 0
  unsubscribed : Nat → Bool := fun _ => false
  calls : T → Option (Call I) := fun _ => none

inductive Event (I A T : Type)
  | create (i : I) (aliases : List A)
  /-- A record changes what the instance is known by. -/
  | rename (i : I) (aliases : List A)
  | update (t : T) (i : I)
  | created (t : T) (k : I) (aliases : List A)
  | createRejected (t : T)
  | subscribed (t : T)
  | refused (t : T)
  | attachHandlers (k : I)
  | stop (t : T) (i : I)
  | runStop (t : T)
  | unsubscribed (t : T) (resolves : Bool)
  | finish (t : T)

section Step

variable {I A T : Type} [DecidableEq I] [DecidableEq A] [DecidableEq T]

def State.setCall (s : State I A T) (t : T) (call : Option (Call I)) : State I A T :=
  { s with calls := Function.update s.calls t call }

def State.setUpdating (s : State I A T) (k : I) (updating : Bool) : State I A T :=
  { s with updating := Function.update s.updating k updating }

def State.setMirrored (s : State I A T) (i : I) (k : Option I) : State I A T :=
  { s with mirrored := Function.update s.mirrored i k }

def State.addListeners (s : State I A T) (k : I) (n : Int) : State I A T :=
  { s with numOfListeners := Function.update s.numOfListeners k (s.numOfListeners k + n) }

/-- Another instance that owns one of the aliases loses it. -/
def State.track (s : State I A T) (k : I) : State I A T :=
  { s with
    tracked := Function.update s.tracked k true
    owner := fun a => if a ∈ s.aliases k then some k else s.owner a }

def State.untrack (s : State I A T) (k : I) : State I A T :=
  { s with
    tracked := Function.update s.tracked k false
    owner := fun a => if s.owner a = some k then none else s.owner a }

/-- `findUpdatingCommunity` and `findUpdatingComment` -/
def State.find (s : State I A T) (i : I) : Option I := (s.aliases i).findSome? s.owner

def State.mirror (s : State I A T) (i k : I) : State I A T :=
  (s.setMirrored i (some k)).addListeners k 1

/-- The call of the `stop()` of a mirror goes on, with the `stop()` of the mirrored instance if it
was its last mirror. -/
def State.awaitStop (s : State I A T) (t : T) (k j : I) (rests : List (Rest I)) : State I A T :=
  if s.numOfListeners j = 0 ∧ s.updating j = true then s.setCall t (some (.stopping j rests))
  else (s.setMirrored k none).setCall t (some (.finishing rests))

/-- What `_stopUpdateLoop` of a comment does when it has no subscription (any more). -/
def State.leave (s : State I A T) (t : T) (k : I) (rests : List (Rest I)) : State I A T :=
  match s.mirrored k with
  | none => (if s.find k = some k then s.untrack k else s).setCall t (some (.finishing rests))
  | some j =>
    let s := s.addListeners j (-1)
    let s :=
      if s.numOfListeners j = 0 ∧ s.updating j = false ∧ s.find k = some j then s.untrack j else s
    s.awaitStop t k j (⟨k, false⟩ :: rests)

/-- The id is cleared before the round trip of the unsubscribe. -/
def State.close (s : State I A T) (t : T) (k : I) (id : Nat)
    (rests : List (Rest I)) : State I A T :=
  { s with
    updateRpcSubscriptionId := Function.update s.updateRpcSubscriptionId k none }.setCall t
      (some (.unsubscribing k id rests))

/-- `stop()` of a community, up to its first `await`. -/
def State.stopCommunity (s : State I A T) (t : T) (k : I) (rests : List (Rest I)) : State I A T :=
  if s.updating k = false then s.setCall t (some (.finishing rests))
  else
    match s.mirrored k, s.updateRpcSubscriptionId k with
    | none, none => (s.untrack k).setCall t (some (.finishing (⟨k, true⟩ :: rests)))
    | none, some id => s.close t k id rests
    | some j, _ =>
      let s := s.addListeners j (-1)
      let s := if s.numOfListeners j = 0 ∧ s.updating j = true then s.untrack j else s
      s.awaitStop t k j (⟨k, true⟩ :: rests)

/-- `stop()` of a comment, up to its first `await`. -/
def State.stopComment (s : State I A T) (t : T) (k : I) (rests : List (Rest I)) : State I A T :=
  let s := s.setUpdating k false
  match s.updateRpcSubscriptionId k with
  | none => s.leave t k rests
  | some id => s.close t k id rests

/-- The client forgets the subscription and the handlers that are attached to it. -/
def State.unsubscribe (s : State I A T) (id : Nat) : State I A T :=
  { s with
    handlers := Function.update s.handlers id none
    unsubscribed := Function.update s.unsubscribed id true }

/-- A comment sets its state again after the round trip. -/
def State.subscribed (s : State I A T) (config : Config I) (k : I) : State I A T :=
  { s with
    updateRpcSubscriptionId := Function.update s.updateRpcSubscriptionId k (some s.issued)
    updating := Function.update s.updating k (s.updating k || config.kind k = .comment)
    issued := s.issued + 1 }

def step (config : Config I) (s : State I A T) : Event I A T → Option (State I A T)
  | .create i aliases =>
    if s.created i then none
    else
      some { s with
        created := Function.update s.created i true
        aliases := Function.update s.aliases i aliases }
  | .rename i aliases =>
    let s := { s with aliases := Function.update s.aliases i aliases }
    some (if s.tracked i then s.track i else s)
  | .update t i =>
    if s.created i = false ∨ (s.calls t).isSome then none
    else if s.updating i then some s
    else
      let s := s.setUpdating i true
      match s.find i with
      | none => some (s.setCall t (some (.creating i)))
      | some k =>
        if k = i ∨ config.kind i = .community ∧ config.shares i k = false then
          some (s.setCall t (some (.subscribing i i)))
        else some (s.mirror i k)
  | .created t k aliases =>
    match s.calls t with
    | some (.creating i) =>
      if s.created k ∨ config.kind k ≠ config.kind i then none
      else
        let s := { s with
          created := Function.update s.created k true
          aliases := Function.update s.aliases k aliases }
        some ((((s.track k).mirror i k).setUpdating k true).setCall t (some (.subscribing i k)))
    | _ => none
  | .createRejected t =>
    match s.calls t with
    | some (.creating i) =>
      -- a community stops, a comment does not
      match config.kind i with
      | .community => some (s.setCall t (some (.stopping i [])))
      | .comment => some (s.setCall t none)
    | _ => none
  | .subscribed t =>
    match s.calls t with
    | some (.subscribing _ k) => some ((s.subscribed config k).setCall t none)
    | _ => none
  | .refused t =>
    match s.calls t with
    | some (.subscribing i k) =>
      match config.kind k with
      | .community => some ((s.setUpdating k false).setCall t (some (.stopping i [])))
      | .comment => some (s.leave t k [⟨k, true⟩])
    | _ => none
  | .attachHandlers k =>
    (s.updateRpcSubscriptionId k).map fun id =>
      { s with handlers := Function.update s.handlers id (some k) }
  | .stop t i =>
    if s.created i = false ∨ (s.calls t).isSome then none
    else some (s.setCall t (some (.stopping i [])))
  | .runStop t =>
    match s.calls t with
    | some (.stopping k rests) =>
      match config.kind k with
      | .community => some (s.stopCommunity t k rests)
      | .comment => some (s.stopComment t k rests)
    | _ => none
  | .unsubscribed t resolves =>
    match s.calls t with
    | some (.unsubscribing k id rests) =>
      -- that it is rejected is only logged
      let s := (if resolves then s.unsubscribe id else s).untrack k
      match config.kind k with
      | .community => some (s.setCall t (some (.finishing (⟨k, true⟩ :: rests))))
      | .comment => some (s.leave t k rests)
    | _ => none
  | .finish t =>
    match s.calls t with
    | some (.finishing []) => some (s.setCall t none)
    | some (.finishing (rest :: rests)) =>
      let s := s.setMirrored rest.instance_ none
      let s := if rest.setsStopped then s.setUpdating rest.instance_ false else s
      some (s.setCall t (some (.finishing rests)))
    | _ => none

end Step

/-! ## The invariant -/

section Invariant

variable {I A T : Type}

def Call.rests : Call I → List (Rest I)
  | .creating _ | .subscribing _ _ => []
  | .stopping _ rests | .unsubscribing _ _ rests | .finishing rests => rests

/-- The call is an `update()` that awaits a new instance, or the instance's subscription. -/
def Call.Updates (call : Call I) (k : I) : Prop :=
  match call with
  | .creating i => i = k
  | .subscribing _ i => i = k
  | _ => False

/-- An update of the instance is pending. -/
def State.Busy (s : State I A T) (k : I) : Prop :=
  ∃ t call, s.calls t = some call ∧ call.Updates k

def State.Subscribing (s : State I A T) (k : I) : Prop :=
  ∃ t i, s.calls t = some (.subscribing i k)

/-- An unsubscribe is under way. -/
def State.Closing (s : State I A T) (k : I) (id : Nat) : Prop :=
  ∃ t rests, s.calls t = some (.unsubscribing k id rests)

structure Ok (config : Config I) (s : State I A T) : Prop where
  fresh : ∀ k, s.created k = false → s.updating k = false ∧ s.mirrored k = none ∧
    s.tracked k = false
  held : ∀ k id, s.updateRpcSubscriptionId k = some id →
    s.updating k = true ∧ id < s.issued ∧ s.unsubscribed id = false
  once : ∀ k k' id, s.updateRpcSubscriptionId k = some id →
    s.updateRpcSubscriptionId k' = some id → k = k'
  issued : ∀ id, id < s.issued → s.unsubscribed id = true ∨
    (∃ k, s.updateRpcSubscriptionId k = some id) ∨ ∃ k, s.Closing k id
  unissued : ∀ id, s.issued ≤ id → s.unsubscribed id = false
  handlers : ∀ k id, s.handlers id = some k →
    s.updateRpcSubscriptionId k = some id ∨ s.Closing k id
  stopped : ∀ k, config.kind k = .community → s.updating k = false →
    s.mirrored k = none ∧ s.tracked k = false
  mirrors : ∀ k j, config.kind k = .community → s.mirrored k = some j →
    s.updateRpcSubscriptionId k = none ∧ s.tracked k = false
  comment : ∀ k, config.kind k = .comment → s.tracked k = true →
    s.updating k = true ∧ (s.updateRpcSubscriptionId k ≠ none ∨ s.Subscribing k) ∨
      ∃ id, s.Closing k id
  busy : ∀ k, s.Busy k → s.created k = true ∧ s.updating k = true ∧
    s.updateRpcSubscriptionId k = none ∧ (config.kind k = .community → s.mirrored k = none)
  busyOnce : ∀ k t t' call call', s.calls t = some call → s.calls t' = some call' →
    call.Updates k → call'.Updates k → t = t'
  closing : ∀ k id, s.Closing k id → s.created k = true ∧ id < s.issued ∧
    (∀ k', s.updateRpcSubscriptionId k' ≠ some id) ∧
      (config.kind k = .community → s.updateRpcSubscriptionId k = none ∧ ¬ s.Busy k)
  creating : ∀ t i, s.calls t = some (.creating i) → config.kind i = .community →
    s.tracked i = false
  rests : ∀ t call k, s.calls t = some call → ⟨k, true⟩ ∈ call.rests →
    s.created k = true ∧ s.updateRpcSubscriptionId k = none ∧ s.tracked k = false ∧ ¬ s.Busy k

end Invariant

/-! ## What keeps it -/

section Keeps

variable {I A T : Type} {config : Config I} {s : State I A T} {t : T} {k j : I}

theorem ok_initial : Ok config ({} : State I A T) := by
  constructor <;> simp [State.Busy, State.Closing]

variable [DecidableEq I]

theorem Ok.addListeners (h : Ok config s) (n : Int) : Ok config (s.addListeners k n) :=
  ⟨h.fresh, h.held, h.once, h.issued, h.unissued, h.handlers, h.stopped, h.mirrors, h.comment, h.busy,
    h.busyOnce, h.closing, h.creating, h.rests⟩

theorem Ok.untrack (h : Ok config s) : Ok config (s.untrack k) := by
  have htracked : ∀ {j}, (s.untrack k).tracked j = true → s.tracked j = true := by
    intro j hj
    simp only [State.untrack, Function.update_apply] at hj
    split at hj
    · cases hj
    · exact hj
  have huntracked : ∀ {j}, s.tracked j = false → (s.untrack k).tracked j = false :=
    fun hj => Bool.of_not_eq_true fun h => Bool.false_ne_true (hj.symm.trans (htracked h))
  exact { h with
    fresh := fun j hj => (h.fresh j hj).imp id (And.imp id huntracked)
    stopped := fun j hkind hj => (h.stopped j hkind hj).imp id huntracked
    mirrors := fun j i hkind hj => (h.mirrors j i hkind hj).imp id huntracked
    comment := fun j hkind hj => h.comment j hkind (htracked hj)
    creating := fun t i hcall hkind => huntracked (h.creating t i hcall hkind)
    rests := fun t call j hcall hmem =>
      have hrest := h.rests t call j hcall hmem
      ⟨hrest.1, hrest.2.1, huntracked hrest.2.2.1, hrest.2.2.2⟩ }

theorem Ok.forgetMirrored (h : Ok config s) : Ok config (s.setMirrored k none) := by
  have hnone : ∀ {j}, s.mirrored j = none → (s.setMirrored k none).mirrored j = none := by
    intro j hj
    simp only [State.setMirrored, Function.update_apply, hj, ite_self]
  have hsome : ∀ {j i}, (s.setMirrored k none).mirrored j = some i → s.mirrored j = some i := by
    intro j i hj
    simp only [State.setMirrored, Function.update_apply] at hj
    split at hj
    · cases hj
    · exact hj
  exact { h with
    fresh := fun j hj => (h.fresh j hj).imp id (And.imp hnone id)
    stopped := fun j hkind hj => (h.stopped j hkind hj).imp hnone id
    mirrors := fun j i hkind hj => h.mirrors j i hkind (hsome hj)
    busy := fun j hj =>
      have hbusy := h.busy j hj
      ⟨hbusy.1, hbusy.2.1, hbusy.2.2.1, fun hkind => hnone (hbusy.2.2.2 hkind)⟩ }

theorem Ok.setMirrored (h : Ok config s) (hcreated : s.created k = true)
    (hupdating : s.updating k = true) (hid : s.updateRpcSubscriptionId k = none)
    (htracked : config.kind k = .community → s.tracked k = false) (hbusy : ¬ s.Busy k) :
    Ok config (s.setMirrored k (some j)) := by
  have hother : ∀ {i}, i ≠ k → (s.setMirrored k (some j)).mirrored i = s.mirrored i :=
    fun hne => Function.update_of_ne hne _ _
  exact { h with
    fresh := fun i hi => by
      have hne : i ≠ k := fun heq => by simp [heq, State.setMirrored, hcreated] at hi
      rw [hother hne]
      exact h.fresh i hi
    stopped := fun i hkind hi => by
      have hne : i ≠ k := fun heq => by simp [heq, State.setMirrored, hupdating] at hi
      rw [hother hne]
      exact h.stopped i hkind hi
    mirrors := fun i i' hkind hi => by
      by_cases heq : i = k
      · rw [heq]
        exact ⟨hid, htracked (heq ▸ hkind)⟩
      · rw [hother heq] at hi
        exact h.mirrors i i' hkind hi
    busy := fun i hi => by
      have hne : i ≠ k := fun heq => hbusy (heq ▸ hi)
      rw [hother hne]
      exact h.busy i hi }

theorem Ok.startsUpdating (h : Ok config s) (hcreated : s.created k = true) :
    Ok config (s.setUpdating k true) := by
  have hmono : ∀ {i}, s.updating i = true → (s.setUpdating k true).updating i = true := by
    intro i hi
    simp only [State.setUpdating, Function.update_apply, hi, ite_self]
  have hstopped : ∀ {i}, (s.setUpdating k true).updating i = false →
      i ≠ k ∧ s.updating i = false := by
    intro i hi
    simp only [State.setUpdating, Function.update_apply] at hi
    split at hi
    · cases hi
    · exact ⟨‹_›, hi⟩
  exact { h with
    fresh := fun i hi => by
      have hne : i ≠ k := fun heq => by simp [heq, State.setUpdating, hcreated] at hi
      simpa [State.setUpdating, hne] using h.fresh i hi
    held := fun i id hid => (h.held i id hid).imp hmono (fun hid => hid)
    stopped := fun i hkind hi => h.stopped i hkind (hstopped hi).2
    comment := fun i hkind hi =>
      (h.comment i hkind hi).imp (And.imp hmono fun hid => hid) (fun hc => hc)
    busy := fun i hi => (h.busy i hi).imp (fun hc => hc) (And.imp hmono fun hid => hid) }

theorem Ok.stopsUpdating (h : Ok config s) (hid : s.updateRpcSubscriptionId k = none)
    (hbusy : ¬ s.Busy k)
    (hcommunity : config.kind k = .community → s.mirrored k = none ∧ s.tracked k = false) :
    Ok config (s.setUpdating k false) := by
  have hother : ∀ {i}, i ≠ k → (s.setUpdating k false).updating i = s.updating i :=
    fun hne => Function.update_of_ne hne _ _
  have hmono : ∀ {i}, s.updating i = false → (s.setUpdating k false).updating i = false := by
    intro i hi
    simp only [State.setUpdating, Function.update_apply, hi, ite_self]
  exact { h with
    fresh := fun i hi => (h.fresh i hi).imp hmono fun hc => hc
    held := fun i id hi => by
      have hne : i ≠ k := fun heq => by simp [heq, State.setUpdating, hid] at hi
      rw [hother hne]
      exact h.held i id hi
    stopped := fun i hkind hi => by
      by_cases heq : i = k
      · subst heq
        exact hcommunity hkind
      · rw [hother heq] at hi
        exact h.stopped i hkind hi
    comment := fun i hkind hi => by
      by_cases heq : i = k
      · subst heq
        refine Or.inr ((h.comment i hkind hi).resolve_left fun hup => ?_)
        rcases hup.2 with hsome | ⟨t, j, hcall⟩
        · exact hsome hid
        · exact hbusy ⟨t, _, hcall, rfl⟩
      · rw [hother heq]
        exact h.comment i hkind hi
    busy := fun i hi => by
      have hne : i ≠ k := fun heq => hbusy (heq ▸ hi)
      rw [hother hne]
      exact h.busy i hi }

section Calls

variable [DecidableEq T] {call : Option (Call I)}

/-- A call other than `t` updates the instance. -/
def State.OtherUpdates (s : State I A T) (t : T) (k : I) : Prop :=
  ∃ t' other, t' ≠ t ∧ s.calls t' = some other ∧ other.Updates k

omit [DecidableEq I] [DecidableEq T] in
theorem State.OtherUpdates.busy (h : s.OtherUpdates t k) : s.Busy k := by
  obtain ⟨t', other, -, hother, hk⟩ := h
  exact ⟨t', other, hother, hk⟩

omit [DecidableEq I] in
theorem busy_setCall : (s.setCall t call).Busy k ↔
    (∃ new, call = some new ∧ new.Updates k) ∨ s.OtherUpdates t k := by
  constructor
  · rintro ⟨t', other, hother, hk⟩
    rcases update_eq_some.1 hother with ⟨-, rfl⟩ | ⟨hne, hother⟩
    · exact Or.inl ⟨other, rfl, hk⟩
    · exact Or.inr ⟨t', other, hne, hother, hk⟩
  · rintro (⟨new, hnew, hk⟩ | ⟨t', other, hne, hother, hk⟩)
    · exact ⟨t, new, update_eq_some.2 (Or.inl ⟨rfl, hnew⟩), hk⟩
    · exact ⟨t', other, update_eq_some.2 (Or.inr ⟨hne, hother⟩), hk⟩

omit [DecidableEq I] in
theorem closing_setCall {id : Nat} : (s.setCall t call).Closing k id ↔
    (∃ rests, call = some (.unsubscribing k id rests)) ∨
      ∃ t' rests, t' ≠ t ∧ s.calls t' = some (.unsubscribing k id rests) := by
  constructor
  · rintro ⟨t', rests, hother⟩
    rcases update_eq_some.1 hother with ⟨-, hcall⟩ | ⟨hne, hother⟩
    · exact Or.inl ⟨rests, hcall⟩
    · exact Or.inr ⟨t', rests, hne, hother⟩
  · rintro (⟨rests, hcall⟩ | ⟨t', rests, hne, hother⟩)
    · exact ⟨t, rests, update_eq_some.2 (Or.inl ⟨rfl, hcall⟩)⟩
    · exact ⟨t', rests, update_eq_some.2 (Or.inr ⟨hne, hother⟩)⟩

omit [DecidableEq I] in
theorem subscribing_setCall : (s.setCall t call).Subscribing k ↔
    (∃ i, call = some (.subscribing i k)) ∨
      ∃ t' i, t' ≠ t ∧ s.calls t' = some (.subscribing i k) := by
  constructor
  · rintro ⟨t', i, hother⟩
    rcases update_eq_some.1 hother with ⟨-, hcall⟩ | ⟨hne, hother⟩
    · exact Or.inl ⟨i, hcall⟩
    · exact Or.inr ⟨t', i, hne, hother⟩
  · rintro (⟨i, hcall⟩ | ⟨t', i, hne, hother⟩)
    · exact ⟨t, i, update_eq_some.2 (Or.inl ⟨rfl, hcall⟩)⟩
    · exact ⟨t', i, update_eq_some.2 (Or.inr ⟨hne, hother⟩)⟩

/-- What is left of a call may set the instances stopped. -/
def State.RestsOk (s : State I A T) (t : T) (rests : List (Rest I)) : Prop :=
  ∀ k, ⟨k, true⟩ ∈ rests → s.created k = true ∧ s.updateRpcSubscriptionId k = none ∧
    s.tracked k = false ∧ ¬ s.OtherUpdates t k

/-- What a call does next. -/
structure Next (config : Config I) (s : State I A T) (t : T) (new : Call I) : Prop where
  updates : ∀ k, new.Updates k → s.created k = true ∧ s.updating k = true ∧
    s.updateRpcSubscriptionId k = none ∧ ¬ s.OtherUpdates t k ∧
      (∀ t' other, s.calls t' = some other → ⟨k, true⟩ ∉ other.rests) ∧
        (config.kind k = .community → s.mirrored k = none ∧ ∀ id, ¬ s.Closing k id)
  creating : ∀ i, new = .creating i → config.kind i = .community → s.tracked i = false
  rests : s.RestsOk t new.rests
  unsubscribing : ∀ k id rests, new ≠ .unsubscribing k id rests

/-- What a call has done when it goes on. -/
structure Done (config : Config I) (s : State I A T) (old : Call I) : Prop where
  unsubscribing : ∀ k id rests, old = .unsubscribing k id rests → s.unsubscribed id = true ∧
    s.handlers id = none ∧ (config.kind k = .comment → s.tracked k = false)
  subscribing : ∀ i k, old = .subscribing i k → config.kind k = .comment → s.tracked k = false

omit [DecidableEq I] in
theorem Ok.setCall (h : Ok config s) (hdone : ∀ old, s.calls t = some old → Done config s old)
    (hnext : ∀ new, call = some new → Next config s t new) : Ok config (s.setCall t call) := by
  -- an unsubscribe that is not over is still under way
  have hclosing : ∀ {k id}, s.Closing k id → (s.setCall t call).Closing k id ∨
      s.calls t ≠ none ∧ s.unsubscribed id = true ∧ s.handlers id = none ∧
        (config.kind k = .comment → s.tracked k = false) := by
    rintro k id ⟨t', rests, hcall⟩
    by_cases heq : t' = t
    · subst heq
      exact Or.inr ⟨by simp [hcall], (hdone _ hcall).unsubscribing k id rests rfl⟩
    · exact Or.inl (closing_setCall.2 (Or.inr ⟨t', rests, heq, hcall⟩))
  have hclosed : ∀ {k id}, (s.setCall t call).Closing k id → s.Closing k id := by
    intro k id hk
    rcases closing_setCall.1 hk with ⟨rests, hcall⟩ | ⟨t', rests, -, hother⟩
    · exact absurd rfl ((hnext _ hcall).unsubscribing k id rests)
    · exact ⟨t', rests, hother⟩
  exact { h with
    issued := fun id hid => by
      rcases h.issued id hid with hun | hheld | ⟨k, hk⟩
      · exact Or.inl hun
      · exact Or.inr (Or.inl hheld)
      · exact (hclosing hk).elim (fun hk => Or.inr (Or.inr ⟨k, hk⟩)) fun hk => Or.inl hk.2.1
    handlers := fun k id hk => by
      rcases h.handlers k id hk with hheld | hclosing'
      · exact Or.inl hheld
      · refine Or.inr ((hclosing hclosing').resolve_right fun hdone => ?_)
        exact Option.some_ne_none k (hk.symm.trans hdone.2.2.1)
    comment := fun k hkind hk => by
      rcases h.comment k hkind hk with ⟨hupdating, hid | ⟨t', i, hcall⟩⟩ | ⟨id, hid⟩
      · exact Or.inl ⟨hupdating, Or.inl hid⟩
      · refine Or.inl ⟨hupdating, Or.inr (subscribing_setCall.2 (Or.inr ⟨t', i, ?_, hcall⟩))⟩
        rintro rfl
        exact Bool.false_ne_true (((hdone _ hcall).subscribing i k rfl hkind).symm.trans hk)
      · refine Or.inr ⟨id, (hclosing hid).resolve_right fun hdone => ?_⟩
        exact Bool.false_ne_true ((hdone.2.2.2 hkind).symm.trans hk)
    busy := fun k hk => by
      rcases busy_setCall.1 hk with ⟨new, hnew, hupdates⟩ | hother
      · obtain ⟨hcreated, hupdating, hid, -, -, hkind⟩ := (hnext new hnew).updates k hupdates
        exact ⟨hcreated, hupdating, hid, fun hcommunity => (hkind hcommunity).1⟩
      · exact h.busy k hother.busy
    busyOnce := by
      rintro k t₁ t₂ call₁ call₂ h₁ h₂ hk₁ hk₂
      rcases update_eq_some.1 h₁ with ⟨heq₁, hnew₁⟩ | ⟨hne₁, hold₁⟩ <;>
        rcases update_eq_some.1 h₂ with ⟨heq₂, hnew₂⟩ | ⟨hne₂, hold₂⟩
      · exact heq₁.trans heq₂.symm
      · exact absurd ⟨t₂, call₂, hne₂, hold₂, hk₂⟩ ((hnext call₁ hnew₁).updates k hk₁).2.2.2.1
      · exact absurd ⟨t₁, call₁, hne₁, hold₁, hk₁⟩ ((hnext call₂ hnew₂).updates k hk₂).2.2.2.1
      · exact h.busyOnce k t₁ t₂ call₁ call₂ hold₁ hold₂ hk₁ hk₂
    closing := fun k id hk => by
      obtain ⟨hcreated, hid, hheld, hcommunity⟩ := h.closing k id (hclosed hk)
      refine ⟨hcreated, hid, hheld, fun hkind => ⟨(hcommunity hkind).1, fun hbusy => ?_⟩⟩
      rcases busy_setCall.1 hbusy with ⟨new, hnew, hupdates⟩ | hother
      · exact (((hnext new hnew).updates k hupdates).2.2.2.2.2 hkind).2 id (hclosed hk)
      · exact (hcommunity hkind).2 hother.busy
    creating := fun t' i hother hkind => by
      rcases update_eq_some.1 hother with ⟨-, hnew⟩ | ⟨-, hother⟩
      · exact (hnext _ hnew).creating i rfl hkind
      · exact h.creating t' i hother hkind
    rests := fun t' other k hother hmem => by
      rcases update_eq_some.1 hother with ⟨rfl, hnew⟩ | ⟨hne, hother⟩
      · obtain ⟨hcreated, hid, htracked, hk⟩ := (hnext other hnew).rests k hmem
        refine ⟨hcreated, hid, htracked, fun hbusy => ?_⟩
        rcases busy_setCall.1 hbusy with ⟨new, hnew', hupdates⟩ | hother'
        · rw [hnew', Option.some.injEq] at hnew
          subst hnew
          cases new <;> first | exact hupdates | cases hmem
        · exact hk hother'
      · obtain ⟨hcreated, hid, htracked, hbusy⟩ := h.rests t' other k hother hmem
        refine ⟨hcreated, hid, htracked, fun hk => ?_⟩
        rcases busy_setCall.1 hk with ⟨new, hnew, hupdates⟩ | hother'
        · exact ((hnext new hnew).updates k hupdates).2.2.2.2.1 t' other hother hmem
        · exact hbusy hother'.busy }

/-- The subscription is no longer held, and an unsubscribe is under way. -/
theorem Ok.close {id : Nat} {rests : List (Rest I)} (h : Ok config s)
    (hcall : s.calls t = some (.stopping k rests)) (hid : s.updateRpcSubscriptionId k = some id) :
    Ok config (s.close t k id rests) := by
  have hcreated : s.created k = true := Bool.of_not_eq_false fun hfresh =>
    Bool.false_ne_true ((h.fresh k hfresh).1.symm.trans (h.held k id hid).1)
  have hids : ∀ {j}, j ≠ k →
      (s.close t k id rests).updateRpcSubscriptionId j = s.updateRpcSubscriptionId j :=
    fun hne => Function.update_of_ne hne _ _
  have hnone : (s.close t k id rests).updateRpcSubscriptionId k = none := Function.update_self ..
  have hmono : ∀ {j}, s.updateRpcSubscriptionId j = none →
      (s.close t k id rests).updateRpcSubscriptionId j = none := by
    intro j hj
    simp only [State.close, State.setCall, Function.update_apply, hj, ite_self]
  have hholds : ∀ {j id'}, (s.close t k id rests).updateRpcSubscriptionId j = some id' →
      j ≠ k ∧ s.updateRpcSubscriptionId j = some id' := by
    intro j id' hj
    by_cases heq : j = k
    · rw [heq, hnone] at hj
      cases hj
    · exact ⟨heq, by rwa [hids heq] at hj⟩
  have hbusy : ∀ {j}, (s.close t k id rests).Busy j → s.Busy j := by
    intro j hj
    rcases busy_setCall.1 hj with ⟨new, hnew, hupdates⟩ | hother
    · cases hnew
      cases hupdates
    · exact hother.busy
  have hclosing : ∀ {j id'}, s.Closing j id' → (s.close t k id rests).Closing j id' := by
    rintro j id' ⟨t', rests', hother⟩
    refine closing_setCall.2 (Or.inr ⟨t', rests', ?_, hother⟩)
    rintro rfl
    cases hcall.symm.trans hother
  have hcloses : (s.close t k id rests).Closing k id := closing_setCall.2 (Or.inl ⟨rests, rfl⟩)
  have hsubscribing : ∀ {j}, s.Subscribing j → (s.close t k id rests).Subscribing j := by
    rintro j ⟨t', i, hother⟩
    refine subscribing_setCall.2 (Or.inr ⟨t', i, ?_, hother⟩)
    rintro rfl
    cases hcall.symm.trans hother
  exact { h with
    held := fun j id' hj => h.held j id' (hholds hj).2
    once := fun j j' id' hj hj' => h.once j j' id' (hholds hj).2 (hholds hj').2
    issued := fun id' hid' => by
      rcases h.issued id' hid' with hun | ⟨j, hj⟩ | ⟨j, hj⟩
      · exact Or.inl hun
      · by_cases heq : j = k
        · subst heq
          rw [hid, Option.some.injEq] at hj
          exact Or.inr (Or.inr ⟨j, hj ▸ hcloses⟩)
        · exact Or.inr (Or.inl ⟨j, (hids heq).trans hj⟩)
      · exact Or.inr (Or.inr ⟨j, hclosing hj⟩)
    handlers := fun j id' hj => by
      rcases h.handlers j id' hj with hheld | hj
      · by_cases heq : j = k
        · subst heq
          rw [hid, Option.some.injEq] at hheld
          exact Or.inr (hheld ▸ hcloses)
        · exact Or.inl ((hids heq).trans hheld)
      · exact Or.inr (hclosing hj)
    mirrors := fun j i hkind hj => (h.mirrors j i hkind hj).imp hmono fun hc => hc
    comment := fun j hkind hj => by
      by_cases heq : j = k
      · exact Or.inr ⟨id, heq ▸ hcloses⟩
      · rcases h.comment j hkind hj with ⟨hupdating, hsome | hj⟩ | ⟨id', hj⟩
        · exact Or.inl ⟨hupdating, Or.inl (by rwa [hids heq])⟩
        · exact Or.inl ⟨hupdating, Or.inr (hsubscribing hj)⟩
        · exact Or.inr ⟨id', hclosing hj⟩
    busy := fun j hj =>
      have hold := h.busy j (hbusy hj)
      ⟨hold.1, hold.2.1, hmono hold.2.2.1, hold.2.2.2⟩
    busyOnce := by
      rintro j t₁ t₂ call₁ call₂ h₁ h₂ hk₁ hk₂
      rcases update_eq_some.1 h₁ with ⟨-, hnew⟩ | ⟨-, hold₁⟩
      · cases hnew
        cases hk₁
      rcases update_eq_some.1 h₂ with ⟨-, hnew⟩ | ⟨-, hold₂⟩
      · cases hnew
        cases hk₂
      exact h.busyOnce j t₁ t₂ call₁ call₂ hold₁ hold₂ hk₁ hk₂
    closing := fun j id' hj => by
      rcases closing_setCall.1 hj with ⟨_, hnew⟩ | ⟨t', rests', -, hother⟩
      · cases hnew
        refine ⟨hcreated, (h.held k id hid).2.1, fun k' hk' => ?_, fun _ => ⟨hnone, fun hk => ?_⟩⟩
        · exact (hholds hk').1 (h.once k' k id (hholds hk').2 hid)
        · exact Option.some_ne_none id (hid.symm.trans (h.busy k (hbusy hk)).2.2.1)
      · obtain ⟨hcreated, hid', hheld, hcommunity⟩ := h.closing j id' ⟨t', rests', hother⟩
        exact ⟨hcreated, hid', fun k' hk' => hheld k' (hholds hk').2, fun hkind =>
          ⟨hmono (hcommunity hkind).1, fun hk => (hcommunity hkind).2 (hbusy hk)⟩⟩
    creating := fun t' i hother hkind => by
      rcases update_eq_some.1 hother with ⟨-, hnew⟩ | ⟨-, hother⟩
      · cases hnew
      · exact h.creating t' i hother hkind
    rests := fun t' other j hother hmem => by
      have hold : s.created j = true ∧ s.updateRpcSubscriptionId j = none ∧ s.tracked j = false ∧
          ¬ s.Busy j := by
        rcases update_eq_some.1 hother with ⟨-, hnew⟩ | ⟨-, hother⟩
        · cases hnew
          exact h.rests t _ j hcall hmem
        · exact h.rests t' other j hother hmem
      exact ⟨hold.1, hmono hold.2.1, hold.2.2.1, fun hj => hold.2.2.2 (hbusy hj)⟩ }

/-- The subscription the server has issued is the one of the instance, and nothing else changes: the
instance was already updating. -/
theorem Ok.subscribed {i : I} (h : Ok config s) (hcall : s.calls t = some (.subscribing i k)) :
    Ok config ((s.subscribed config k).setCall t none) := by
  obtain ⟨hcreated, hupdating, hid, hkind⟩ := h.busy k ⟨t, _, hcall, rfl⟩
  have hother : ∀ {j}, j ≠ k →
      ((s.subscribed config k).setCall t none).updateRpcSubscriptionId j =
        s.updateRpcSubscriptionId j := fun hne => Function.update_of_ne hne _ _
  have hholds : ((s.subscribed config k).setCall t none).updateRpcSubscriptionId k =
      some s.issued := Function.update_self ..
  have hupdates : ((s.subscribed config k).setCall t none).updating = s.updating := by
    refine Function.update_eq_self_iff.2 ?_
    rw [hupdating]
    rfl
  have hids : ∀ {j id}, ((s.subscribed config k).setCall t none).updateRpcSubscriptionId j =
      some id → j = k ∧ id = s.issued ∨ j ≠ k ∧ s.updateRpcSubscriptionId j = some id := by
    intro j id hj
    by_cases heq : j = k
    · rw [heq, hholds, Option.some.injEq] at hj
      exact Or.inl ⟨heq, hj.symm⟩
    · exact Or.inr ⟨heq, (hother heq).symm.trans hj⟩
  have hnotOther : ¬ s.OtherUpdates t k := by
    rintro ⟨t', other, hne, hother', hk⟩
    exact hne (h.busyOnce k t' t other _ hother' hcall hk rfl)
  have hbusy : ∀ {j}, ((s.subscribed config k).setCall t none).Busy j → j ≠ k ∧ s.Busy j := by
    intro j hj
    rcases busy_setCall.1 hj with ⟨_, hnew, -⟩ | hother
    · cases hnew
    · exact ⟨fun heq => hnotOther (heq ▸ hother), State.OtherUpdates.busy hother⟩
  have hclosing : ∀ {j id}, ((s.subscribed config k).setCall t none).Closing j id ↔
      s.Closing j id := by
    intro j id
    constructor
    · intro hj
      rcases closing_setCall.1 hj with ⟨_, hnew⟩ | ⟨t', rests, -, hother⟩
      · cases hnew
      · exact ⟨t', rests, hother⟩
    · rintro ⟨t', rests, hcall'⟩
      refine closing_setCall.2 (Or.inr ⟨t', rests, ?_, hcall'⟩)
      rintro rfl
      cases hcall.symm.trans hcall'
  have hissued : ∀ {j}, s.updateRpcSubscriptionId j ≠ some s.issued :=
    fun hj => Nat.lt_irrefl _ (h.held _ _ hj).2.1
  exact {
    fresh := by
      rw [hupdates]
      exact h.fresh
    held := fun j id hj => by
      rw [hupdates]
      rcases hids hj with ⟨rfl, rfl⟩ | ⟨-, hj⟩
      · exact ⟨hupdating, Nat.lt_succ_self _, h.unissued _ (Nat.le_refl _)⟩
      · obtain ⟨hj, hlt, hun⟩ := h.held j id hj
        exact ⟨hj, Nat.lt_succ_of_lt hlt, hun⟩
    once := fun j j' id hj hj' => by
      rcases hids hj with ⟨heq, hid⟩ | ⟨-, hold⟩ <;> rcases hids hj' with ⟨heq', hid'⟩ | ⟨-, hold'⟩
      · exact heq.trans heq'.symm
      · exact absurd (hid ▸ hold') hissued
      · exact absurd (hid' ▸ hold) hissued
      · exact h.once j j' id hold hold'
    issued := fun id hlt => by
      rcases Nat.lt_succ_iff_lt_or_eq.1 hlt with hlt | rfl
      · rcases h.issued id hlt with hun | ⟨j, hj⟩ | ⟨j, hj⟩
        · exact Or.inl hun
        · have hne : j ≠ k := fun heq => Option.some_ne_none id (hj.symm.trans (heq ▸ hid))
          exact Or.inr (Or.inl ⟨j, (hother hne).trans hj⟩)
        · exact Or.inr (Or.inr ⟨j, hclosing.2 hj⟩)
      · exact Or.inr (Or.inl ⟨k, hholds⟩)
    unissued := fun id hle => h.unissued id (Nat.le_of_succ_le hle)
    handlers := fun j id hj => by
      rcases h.handlers j id hj with hheld | hj
      · have hne : j ≠ k := fun heq => Option.some_ne_none id (hheld.symm.trans (heq ▸ hid))
        exact Or.inl ((hother hne).trans hheld)
      · exact Or.inr (hclosing.2 hj)
    stopped := by
      rw [hupdates]
      exact h.stopped
    mirrors := fun j i hkind' hj => by
      have hne : j ≠ k := by
        rintro rfl
        exact Option.some_ne_none i (hj.symm.trans (hkind hkind'))
      rw [hother hne]
      exact h.mirrors j i hkind' hj
    comment := fun j hkind' hj => by
      rw [hupdates]
      by_cases heq : j = k
      · subst heq
        exact Or.inl ⟨hupdating, Or.inl (by rw [hholds]; exact Option.some_ne_none _)⟩
      · rcases h.comment j hkind' hj with ⟨hj, hsome | ⟨t', i', hcall'⟩⟩ | ⟨id, hj⟩
        · exact Or.inl ⟨hj, Or.inl (by rwa [hother heq])⟩
        · refine Or.inl ⟨hj, Or.inr (subscribing_setCall.2 (Or.inr ⟨t', i', ?_, hcall'⟩))⟩
          rintro rfl
          cases hcall.symm.trans hcall'
          exact heq rfl
        · exact Or.inr ⟨id, hclosing.2 hj⟩
    busy := fun j hj => by
      obtain ⟨hne, hj⟩ := hbusy hj
      rw [hupdates, hother hne]
      exact h.busy j hj
    busyOnce := by
      rintro j t₁ t₂ call₁ call₂ h₁ h₂ hk₁ hk₂
      rcases update_eq_some.1 h₁ with ⟨-, hnew⟩ | ⟨-, hold₁⟩
      · cases hnew
      rcases update_eq_some.1 h₂ with ⟨-, hnew⟩ | ⟨-, hold₂⟩
      · cases hnew
      exact h.busyOnce j t₁ t₂ call₁ call₂ hold₁ hold₂ hk₁ hk₂
    closing := fun j id hj => by
      obtain ⟨hcreated', hlt, hheld, hcommunity⟩ := h.closing j id (hclosing.1 hj)
      refine ⟨hcreated', Nat.lt_succ_of_lt hlt, fun k' hk' => ?_, fun hkind' => ?_⟩
      · rcases hids hk' with ⟨-, rfl⟩ | ⟨-, hk'⟩
        · exact Nat.lt_irrefl _ hlt
        · exact hheld k' hk'
      · have hne : j ≠ k := by
          rintro rfl
          exact (hcommunity hkind').2 ⟨t, _, hcall, rfl⟩
        rw [hother hne]
        exact ⟨(hcommunity hkind').1, fun hj' => (hcommunity hkind').2 (hbusy hj').2⟩
    creating := fun t' i hother' hkind' => by
      rcases update_eq_some.1 hother' with ⟨-, hnew⟩ | ⟨-, hother'⟩
      · cases hnew
      · exact h.creating t' i hother' hkind'
    rests := fun t' other j hother' hmem => by
      rcases update_eq_some.1 hother' with ⟨-, hnew⟩ | ⟨-, hother'⟩
      · cases hnew
      obtain ⟨hcreated', hnone, htracked, hj⟩ := h.rests t' other j hother' hmem
      have hne : j ≠ k := by
        rintro rfl
        exact hj ⟨t, _, hcall, rfl⟩
      rw [hother hne]
      exact ⟨hcreated', hnone, htracked, fun hj' => hj (hbusy hj').2⟩ }

end Calls

omit [DecidableEq I] in
theorem Ok.unsubscribe {id : Nat} (h : Ok config s) (hid : id < s.issued)
    (hheld : ∀ k, s.updateRpcSubscriptionId k ≠ some id) : Ok config (s.unsubscribe id) := by
  have hhandlers : ∀ {k id'}, (s.unsubscribe id).handlers id' = some k → s.handlers id' = some k := by
    intro k id' hk
    simp only [State.unsubscribe, Function.update_apply] at hk
    split at hk
    · cases hk
    · exact hk
  have hmono : ∀ {id'}, s.unsubscribed id' = true → (s.unsubscribe id).unsubscribed id' = true := by
    intro id' hun
    simp only [State.unsubscribe, Function.update_apply, hun, ite_self]
  have hother : ∀ {id'}, id' ≠ id → (s.unsubscribe id).unsubscribed id' = s.unsubscribed id' :=
    fun hne => Function.update_of_ne hne _ _
  exact { h with
    held := fun k id' hk => by
      have hne : id' ≠ id := fun heq => hheld k (heq ▸ hk)
      rw [hother hne]
      exact h.held k id' hk
    issued := fun id' hlt => (h.issued id' hlt).imp hmono fun hc => hc
    unissued := fun id' hle => by
      have hne : id' ≠ id := by
        rintro rfl
        exact absurd hid (Nat.not_lt.2 hle)
      rw [hother hne]
      exact h.unissued id' hle
    handlers := fun k id' hk => h.handlers k id' (hhandlers hk) }

omit [DecidableEq I] in
theorem Ok.attach {id : Nat} (h : Ok config s) (hk : s.updateRpcSubscriptionId k = some id) :
    Ok config { s with handlers := Function.update s.handlers id (some k) } :=
  { h with
    handlers := fun j id' hj => by
      rcases update_eq_some.1 hj with ⟨rfl, heq⟩ | ⟨-, hj⟩
      · cases heq
        exact Or.inl hk
      · exact h.handlers j id' hj }

theorem Ok.create [DecidableEq A] (aliases : List A) (h : Ok config s) : Ok config { s with
    created := Function.update s.created k true
    aliases := Function.update s.aliases k aliases } := by
  have hmono : ∀ {i}, s.created i = true → Function.update s.created k true i = true := by
    intro i hi
    simp only [Function.update_apply, hi, ite_self]
  have hfresh : ∀ {i}, Function.update s.created k true i = false → s.created i = false :=
    fun hi => Bool.of_not_eq_true fun htrue => Bool.false_ne_true (hi.symm.trans (hmono htrue))
  exact { h with
    fresh := fun i hi => h.fresh i (hfresh hi)
    busy := fun i hi => (h.busy i hi).imp hmono fun hc => hc
    closing := fun i id hi => (h.closing i id hi).imp hmono fun hc => hc
    rests := fun t call i hcall hmem => (h.rests t call i hcall hmem).imp hmono fun hc => hc }

theorem Ok.track [DecidableEq A] (h : Ok config s) (hcreated : s.created k = true)
    (hcommunity : config.kind k = .community → s.updating k = true ∧ s.mirrored k = none ∧
      ∀ t, s.calls t ≠ some (.creating k))
    (hcomment : config.kind k = .comment →
      s.updating k = true ∧ (s.updateRpcSubscriptionId k ≠ none ∨ s.Subscribing k) ∨
        ∃ id, s.Closing k id)
    (hrests : ∀ t call, s.calls t = some call → ⟨k, true⟩ ∉ call.rests) :
    Ok config (s.track k) := by
  have hother : ∀ {i}, i ≠ k → (s.track k).tracked i = s.tracked i :=
    fun hne => Function.update_of_ne hne _ _
  exact { h with
    fresh := fun i hi => by
      have hne : i ≠ k := fun heq => by simp [heq, State.track, hcreated] at hi
      rw [hother hne]
      exact h.fresh i hi
    stopped := fun i hkind hi => by
      have hne : i ≠ k := fun heq => by
        subst heq
        exact Bool.false_ne_true (hi.symm.trans (hcommunity hkind).1)
      rw [hother hne]
      exact h.stopped i hkind hi
    mirrors := fun i j hkind hi => by
      have hne : i ≠ k := fun heq => by
        subst heq
        exact Option.some_ne_none j (hi.symm.trans (hcommunity hkind).2.1)
      rw [hother hne]
      exact h.mirrors i j hkind hi
    comment := fun i hkind hi => by
      by_cases heq : i = k
      · subst heq
        exact hcomment hkind
      · rw [hother heq] at hi
        exact h.comment i hkind hi
    creating := fun t i hcall hkind => by
      have hne : i ≠ k := fun heq => by
        subst heq
        exact (hcommunity hkind).2.2 t hcall
      rw [hother hne]
      exact h.creating t i hcall hkind
    rests := fun t call i hcall hmem => by
      have hne : i ≠ k := fun heq => by
        subst heq
        exact hrests t call hcall hmem
      rw [hother hne]
      exact h.rests t call i hcall hmem }

end Keeps

end Subscriptions
end Rpc
end Pkc

import Pkc.Rpc.Subscriptions

/-!
# Subscriptions when all calls have settled

* `Ok.step` keeps the invariant in every step that is `Sound`: no `stop()` meets an `update()` of
  its instance that is still pending, no `update()` a `stop()` that is about to set the state, no
  subscribe is refused while the instance is tracked and would stay tracked, and no unsubscribe is
  rejected.
* `subscriptions_follow`: the server then has the subscriptions that the mirrors need.
  `not_subscriptions_follow` is a run in which the last mirror is stopped while the subscribe is
  under way.
-/

set_option autoImplicit false

namespace Pkc
namespace Rpc
namespace Subscriptions

open Runs Tasks

/-! ## What the subscriptions rely on -/

section Sound

variable {I A T : Type} [DecidableEq A]

/-- A call in flight is about to set the instance stopped. -/
def State.AboutToStop (config : Config I) (s : State I A T) (i : I) : Prop :=
  ∃ t call, s.calls t = some call ∧ (⟨i, true⟩ ∈ call.rests ∨
    config.kind i = .community ∧ ∃ id rests, call = .unsubscribing i id rests)

def Sound (config : Config I) (s : State I A T) : Event I A T → Prop
  | .update _ i => s.updating i = false → ¬ s.AboutToStop config i
  | .runStop t => ∀ k rests, s.calls t = some (.stopping k rests) → ¬ s.Busy k
  | .refused t => ∀ i k, s.calls t = some (.subscribing i k) → s.tracked k = true →
      config.kind k = .comment ∧ s.find k = some k ∧ s.mirrored k = none
  | .unsubscribed _ resolves => resolves = true
  | .create .. | .rename .. | .created .. | .createRejected _ | .subscribed _ | .attachHandlers _
  | .stop .. | .finish _ => True

end Sound

/-! ## The steps -/

section Steps

variable {I A T : Type} {config : Config I} {s : State I A T} {t : T} {i j k : I}
  {rests : List (Rest I)} {call : Call I}

theorem Done.stopping : Done config s (.stopping k rests) := ⟨nofun, nofun⟩

theorem Done.finishing : Done config s (.finishing rests) := ⟨nofun, nofun⟩

theorem Done.creating : Done config s (.creating k) := ⟨nofun, nofun⟩

theorem Next.stopping (h : s.RestsOk t rests) : Next config s t (.stopping k rests) :=
  ⟨nofun, nofun, h, nofun⟩

theorem Next.finishing (h : s.RestsOk t rests) : Next config s t (.finishing rests) :=
  ⟨nofun, nofun, h, nofun⟩

theorem State.RestsOk.nil : s.RestsOk t [] := nofun

theorem State.RestsOk.cons {b : Bool} (h : s.RestsOk t rests)
    (hk : b = true → s.created k = true ∧ s.updateRpcSubscriptionId k = none ∧
      s.tracked k = false ∧ ¬ s.OtherUpdates t k) : s.RestsOk t (⟨k, b⟩ :: rests) := by
  intro k' hmem
  rcases List.mem_cons.1 hmem with heq | hmem
  · cases heq
    exact hk rfl
  · exact h k' hmem

theorem Ok.restsOk (h : Ok config s) (hcall : s.calls t = some call) :
    s.RestsOk t call.rests := by
  intro k hmem
  obtain ⟨hcreated, hid, htracked, hbusy⟩ := h.rests t call k hcall hmem
  exact ⟨hcreated, hid, htracked, fun hother => hbusy hother.busy⟩

variable [DecidableEq I]

theorem State.RestsOk.untrack (h : s.RestsOk t rests) : (s.untrack j).RestsOk t rests := by
  intro k hmem
  obtain ⟨hcreated, hid, htracked, hbusy⟩ := h k hmem
  refine ⟨hcreated, hid, ?_, hbusy⟩
  simp only [State.untrack, Function.update_apply, htracked, ite_self]

theorem Done.untrack (h : Done config s call) :
    Done config (s.untrack j) call := by
  have huntracked : ∀ {k}, s.tracked k = false → (s.untrack j).tracked k = false := by
    intro k hk
    simp only [State.untrack, Function.update_apply, hk, ite_self]
  constructor
  · intro k id rests heq
    obtain ⟨hid, hhandlers, htracked⟩ := h.unsubscribing k id rests heq
    exact ⟨hid, hhandlers, fun hkind => huntracked (htracked hkind)⟩
  · exact fun i k heq hkind => huntracked (h.subscribing i k heq hkind)

variable [DecidableEq T]

omit [DecidableEq I] in
theorem Ok.setStopping (h : Ok config s) (hcall : s.calls t = some call)
    (hdone : Done config s call) (hrests : s.RestsOk t rests) :
    Ok config (s.setCall t (some (.stopping k rests))) := by
  refine h.setCall (fun old hold => ?_) fun new hnew => ?_
  · rw [hcall, Option.some.injEq] at hold
    exact hold ▸ hdone
  · cases hnew
    exact .stopping hrests

omit [DecidableEq I] in
theorem Ok.setFinishing (h : Ok config s) (hcall : s.calls t = some call)
    (hdone : Done config s call) (hrests : s.RestsOk t rests) :
    Ok config (s.setCall t (some (.finishing rests))) := by
  refine h.setCall (fun old hold => ?_) fun new hnew => ?_
  · rw [hcall, Option.some.injEq] at hold
    exact hold ▸ hdone
  · cases hnew
    exact .finishing hrests

omit [DecidableEq I] in
theorem Ok.returns (h : Ok config s) (hcall : s.calls t = some call)
    (hdone : Done config s call) : Ok config (s.setCall t none) := by
  refine h.setCall (fun old hold => ?_) nofun
  rw [hcall, Option.some.injEq] at hold
  exact hold ▸ hdone

theorem Ok.awaitStop (h : Ok config s) (hcall : s.calls t = some call)
    (hdone : Done config s call) (hrests : s.RestsOk t rests) :
    Ok config (s.awaitStop t k j rests) := by
  rw [State.awaitStop]
  split
  · exact h.setStopping hcall hdone hrests
  · exact h.forgetMirrored.setFinishing hcall ⟨hdone.unsubscribing, hdone.subscribing⟩ hrests

theorem Ok.leave (h : Ok config s) (hcall : s.calls t = some call)
    (hdone : Done config s call) (hrests : s.RestsOk t rests) :
    Ok config (s.leave t k rests) := by
  rw [State.leave]
  split
  · split
    · exact h.untrack.setFinishing hcall hdone.untrack hrests.untrack
    · exact h.setFinishing hcall hdone hrests
  · rename_i j _
    have hrests' : s.RestsOk t (⟨k, false⟩ :: rests) := hrests.cons nofun
    dsimp only
    split
    · exact (h.addListeners (-1)).untrack.awaitStop hcall
        (Done.untrack ⟨hdone.unsubscribing, hdone.subscribing⟩) (State.RestsOk.untrack hrests')
    · exact (h.addListeners (-1)).awaitStop hcall ⟨hdone.unsubscribing, hdone.subscribing⟩ hrests'

/-- What an `update()` awaits first. -/
theorem Ok.updates {new : Call I} (h : Ok config s) (hcall : s.calls t = none)
    (hcreated : s.created i = true) (hupdating : s.updating i = false)
    (hstops : ∀ t' other, s.calls t' = some other → ⟨i, true⟩ ∉ other.rests)
    (hclosing : config.kind i = .community → ∀ id, ¬ s.Closing i id)
    (hnew : ∀ k, new.Updates k → k = i) (hrests : new.rests = [])
    (hunsubscribing : ∀ k id rests, new ≠ .unsubscribing k id rests) :
    Ok config ((s.setUpdating i true).setCall t (some new)) := by
  have hid : s.updateRpcSubscriptionId i = none := Option.eq_none_iff_forall_ne_some.2
    fun id hid => Bool.false_ne_true (hupdating.symm.trans (h.held i id hid).1)
  have hbusy : ¬ s.Busy i := fun hbusy =>
    Bool.false_ne_true (hupdating.symm.trans (h.busy i hbusy).2.1)
  refine (h.startsUpdating hcreated).setCall (fun old hold => ?_) fun new' hnew' => ?_
  · cases hcall.symm.trans hold
  cases hnew'
  constructor
  · intro k hk
    obtain rfl := hnew k hk
    exact ⟨hcreated, Function.update_self .., hid, fun hother => hbusy hother.busy, hstops,
      fun hkind => ⟨(h.stopped k hkind hupdating).1, hclosing hkind⟩⟩
  · rintro k rfl hkind
    obtain rfl := hnew k rfl
    exact (h.stopped k hkind hupdating).2
  · rw [hrests]
    exact .nil
  · exact hunsubscribing

theorem Ok.stopCommunity (h : Ok config s) (hcall : s.calls t = some (.stopping k rests))
    (hkind : config.kind k = .community) (hbusy : ¬ s.Busy k) :
    Ok config (s.stopCommunity t k rests) := by
  have hrests : s.RestsOk t rests := h.restsOk hcall
  have hother : ¬ s.OtherUpdates t k := fun hother => hbusy hother.busy
  rw [State.stopCommunity]
  split
  · exact h.setFinishing hcall .stopping hrests
  rename_i hupdating
  have hcreated : s.created k = true :=
    Bool.of_not_eq_false fun hfresh => hupdating (h.fresh k hfresh).1
  split
  · rename_i hid
    exact h.untrack.setFinishing hcall .stopping
      (hrests.untrack.cons fun _ => ⟨hcreated, hid, Function.update_self .., hother⟩)
  · rename_i id _ hid
    exact h.close hcall hid
  · rename_i j hmirrored
    obtain ⟨hid, htracked⟩ := h.mirrors k j hkind hmirrored
    have hrests' : s.RestsOk t (⟨k, true⟩ :: rests) :=
      hrests.cons fun _ => ⟨hcreated, hid, htracked, hother⟩
    dsimp only
    split
    · exact (h.addListeners (-1)).untrack.awaitStop hcall .stopping (State.RestsOk.untrack hrests')
    · exact (h.addListeners (-1)).awaitStop hcall .stopping hrests'

theorem Ok.stopComment (h : Ok config s) (hcall : s.calls t = some (.stopping k rests))
    (hkind : config.kind k = .comment) (hbusy : ¬ s.Busy k) :
    Ok config (s.stopComment t k rests) := by
  have hcommunity : config.kind k ≠ .community := by simp [hkind]
  rw [State.stopComment]
  split
  · rename_i hid
    exact (h.stopsUpdating hid hbusy fun hk => absurd hk hcommunity).leave hcall .stopping
      (h.restsOk hcall)
  · rename_i id hid
    -- the state is set first, and the id is cleared in the same step
    refine (h.close hcall hid).stopsUpdating (Function.update_self ..) (fun hk => ?_)
      fun hk => absurd hk hcommunity
    rcases busy_setCall.1 hk with ⟨new, hnew, hupdates⟩ | hother
    · cases hnew
      cases hupdates
    · exact hbusy (State.OtherUpdates.busy hother)

theorem Ok.unsubscribed {id : Nat} (h : Ok config s)
    (hcall : s.calls t = some (.unsubscribing k id rests)) :
    Ok config (match config.kind k with
      | .community =>
        ((s.unsubscribe id).untrack k).setCall t (some (.finishing (⟨k, true⟩ :: rests)))
      | .comment => ((s.unsubscribe id).untrack k).leave t k rests) := by
  obtain ⟨hcreated, hid, hheld, hcommunity⟩ := h.closing k id ⟨t, rests, hcall⟩
  have hok : Ok config ((s.unsubscribe id).untrack k) := (h.unsubscribe hid hheld).untrack
  have hdone : Done config ((s.unsubscribe id).untrack k) (.unsubscribing k id rests) := by
    constructor
    · rintro _ _ _ ⟨⟩
      exact ⟨Function.update_self .., Function.update_self .., fun _ => Function.update_self ..⟩
    · nofun
  have hrests : ((s.unsubscribe id).untrack k).RestsOk t rests := hok.restsOk hcall
  split
  · rename_i hkind
    obtain ⟨hnone, hbusy⟩ := hcommunity hkind
    exact hok.setFinishing hcall hdone (hrests.cons fun _ =>
      ⟨hcreated, hnone, Function.update_self .., fun hother => hbusy hother.busy⟩)
  · exact hok.leave hcall hdone hrests

theorem Ok.refused (h : Ok config s) (hcall : s.calls t = some (.subscribing i k))
    (hcommunity : config.kind k = .community → s.tracked k = false)
    (hcomment : config.kind k = .comment → s.tracked k = true →
      s.find k = some k ∧ s.mirrored k = none) :
    Ok config (match config.kind k with
      | .community => (s.setUpdating k false).setCall t (some (.stopping i []))
      | .comment => s.leave t k [⟨k, true⟩]) := by
  obtain ⟨hcreated, -, hid, hmirrored⟩ := h.busy k ⟨t, _, hcall, rfl⟩
  have hother : ¬ s.OtherUpdates t k := by
    rintro ⟨t', other, hne, hother, hk⟩
    exact hne (h.busyOnce k t' t other _ hother hcall hk rfl)
  split
  · rename_i hkind
    have hdone : Done config s (.subscribing i k) := by
      refine ⟨nofun, ?_⟩
      rintro _ _ ⟨⟩ hcomment'
      cases hkind.symm.trans hcomment'
    refine (h.setStopping hcall hdone .nil).stopsUpdating hid (fun hbusy => ?_)
      fun _ => ⟨hmirrored hkind, hcommunity hkind⟩
    rcases busy_setCall.1 hbusy with ⟨new, hnew, hupdates⟩ | hk
    · cases hnew
      cases hupdates
    · exact hother hk
  · rename_i hkind
    have hdone : ∀ {s' : State I A T}, s'.tracked k = false →
        Done config s' (.subscribing i k) := by
      refine fun htracked => ⟨nofun, ?_⟩
      rintro _ _ ⟨⟩ -
      exact htracked
    by_cases htracked : s.tracked k = true
    · obtain ⟨hfind, hnone⟩ := hcomment hkind htracked
      rw [State.leave]
      simp only [hnone, hfind, if_true]
      exact h.untrack.setFinishing hcall (hdone (Function.update_self ..))
        (State.RestsOk.nil.cons fun _ => ⟨hcreated, hid, Function.update_self .., hother⟩)
    · have htracked := Bool.of_not_eq_true htracked
      exact h.leave hcall (hdone htracked)
        (State.RestsOk.nil.cons fun _ => ⟨hcreated, hid, htracked, hother⟩)

theorem Ok.finish {rest : Rest I} (h : Ok config s)
    (hcall : s.calls t = some (.finishing (rest :: rests))) :
    Ok config ((if rest.setsStopped then
      (s.setMirrored rest.instance_ none).setUpdating rest.instance_ false
      else s.setMirrored rest.instance_ none).setCall t (some (.finishing rests))) := by
  obtain ⟨k, setsStopped⟩ := rest
  have hrests : s.RestsOk t rests := fun k' hmem =>
    h.restsOk hcall k' (List.mem_cons_of_mem _ hmem)
  dsimp only
  split
  · rename_i hstops
    obtain rfl := hstops
    obtain ⟨hcreated, hid, htracked, hbusy⟩ := h.rests t _ k hcall (List.mem_cons_self ..)
    exact (h.forgetMirrored.stopsUpdating hid hbusy fun _ =>
      ⟨Function.update_self .., htracked⟩).setFinishing hcall .finishing hrests
  · exact h.forgetMirrored.setFinishing hcall .finishing hrests

/-- The new instance is tracked, mirrored and set to updating in one step. -/
theorem Ok.createdInstance [DecidableEq A] {aliases : List A} (h : Ok config s)
    (hcall : s.calls t = some (.creating i)) (hfresh : s.created k = false) :
    Ok config ((((({ s with
        created := Function.update s.created k true
        aliases := Function.update s.aliases k aliases } : State I A T).track k).mirror i
      k).setUpdating k true).setCall t (some (.subscribing i k))) := by
  obtain ⟨hcreated, hupdating, hid, -⟩ := h.busy i ⟨t, _, hcall, rfl⟩
  have hne : i ≠ k := fun heq => by
    rw [heq, hfresh] at hcreated
    cases hcreated
  obtain ⟨hnot, hmirrored, -⟩ := h.fresh k hfresh
  have hnone : s.updateRpcSubscriptionId k = none := Option.eq_none_iff_forall_ne_some.2
    fun id hid => Bool.false_ne_true (hnot.symm.trans (h.held k id hid).1)
  have hbusy : ¬ s.Busy k := fun hk => Bool.false_ne_true (hfresh.symm.trans (h.busy k hk).1)
  have hrests : ∀ t' other, s.calls t' = some other → ⟨k, true⟩ ∉ other.rests :=
    fun t' other hother hmem =>
      Bool.false_ne_true (hfresh.symm.trans (h.rests t' other k hother hmem).1)
  have hclosing : ∀ id, ¬ s.Closing k id := fun id hk =>
    Bool.false_ne_true (hfresh.symm.trans (h.closing k id hk).1)
  -- the state is the same when the call goes on first
  have hgoes := (h.create (k := k) aliases).startsUpdating (Function.update_self ..)
    |>.setCall (t := t)
      (fun old hold => by
        cases hcall.symm.trans hold
        exact .creating)
      (fun new (hnew : some (.subscribing i k) = some new) => by
        cases hnew
        refine ⟨?_, nofun, .nil, nofun⟩
        rintro _ ⟨⟩
        exact ⟨Function.update_self .., Function.update_self .., hnone,
          fun hother => hbusy hother.busy, hrests, fun _ => ⟨hmirrored, hclosing⟩⟩)
  have hmirrors := (hgoes.setMirrored (k := i) (j := k)
      (by rw [State.setCall, State.setUpdating]; simpa [hne] using hcreated)
      (by simpa [State.setCall, State.setUpdating, hne] using hupdating) hid
      (h.creating t i hcall)
      (fun hk => by
        rcases busy_setCall.1 hk with ⟨new, hnew, hupdates⟩ | ⟨t', other, hne', hother, hi⟩
        · cases hnew
          exact hne hupdates.symm
        · exact hne' (h.busyOnce i t' t other _ hother hcall hi rfl))).addListeners (k := k) 1
  refine hmirrors.track (Function.update_self ..) (fun _ => ⟨Function.update_self .., ?_, ?_⟩)
    (fun _ => Or.inl ⟨Function.update_self .., Or.inr ⟨t, i, Function.update_self ..⟩⟩) ?_
  · exact (Function.update_of_ne hne.symm _ _).trans hmirrored
  · intro t' hcreating
    rcases update_eq_some.1 hcreating with ⟨-, hnew⟩ | ⟨-, hother⟩
    · cases hnew
    · exact hbusy ⟨t', _, hother, rfl⟩
  · intro t' other hother hmem
    rcases update_eq_some.1 hother with ⟨-, hnew⟩ | ⟨-, hother⟩
    · cases hnew
      cases hmem
    · exact hrests t' other hother hmem

omit [DecidableEq T] in
theorem Ok.rename [DecidableEq A] {aliases : List A} (h : Ok config s) :
    Ok config (if s.tracked i then
      ({ s with aliases := Function.update s.aliases i aliases } : State I A T).track i
      else { s with aliases := Function.update s.aliases i aliases }) := by
  have hok : Ok config ({ s with aliases := Function.update s.aliases i aliases } : State I A T) :=
    { h with }
  split
  · rename_i htracked
    have hcreated : s.created i = true := Bool.of_not_eq_false fun hfresh =>
      Bool.false_ne_true ((h.fresh i hfresh).2.2.symm.trans htracked)
    refine hok.track hcreated (fun hkind => ⟨?_, ?_, ?_⟩) (fun hkind => h.comment i hkind htracked)
      fun t' other hother hmem =>
        Bool.false_ne_true ((h.rests t' other i hother hmem).2.2.1.symm.trans htracked)
    · exact Bool.of_not_eq_false fun hnot =>
        Bool.false_ne_true ((h.stopped i hkind hnot).2.symm.trans htracked)
    · exact Option.eq_none_iff_forall_ne_some.2 fun j hj =>
        Bool.false_ne_true ((h.mirrors i j hkind hj).2.symm.trans htracked)
    · exact fun t' hcall =>
        Bool.false_ne_true ((h.creating t' i hcall hkind).symm.trans htracked)
  · exact hok

theorem Ok.step [DecidableEq A] (s : State I A T) (event : Event I A T)
    (s' : State I A T) (h : Ok config s) (hsound : Sound config s event)
    (hstep : step config s event = some s') : Ok config s' := by
  cases event with
  | create i aliases =>
    simp only [Subscriptions.step] at hstep
    split at hstep
    · cases hstep
    · cases hstep
      exact h.create _
  | rename i aliases =>
    cases hstep
    exact h.rename
  | update t i =>
    simp only [Subscriptions.step] at hstep
    split at hstep
    · cases hstep
    rename_i hcond
    obtain ⟨hcreated, hcall⟩ := not_or.1 hcond
    have hcreated := Bool.of_not_eq_false hcreated
    have hcall := Option.not_isSome_iff_eq_none.1 hcall
    split at hstep
    · cases hstep
      exact h
    rename_i hupdating
    have hupdating := Bool.of_not_eq_true hupdating
    have hstops := hsound hupdating
    have hmem : ∀ t' other, s.calls t' = some other → ⟨i, true⟩ ∉ other.rests :=
      fun t' other hother hmem => hstops ⟨t', other, hother, Or.inl hmem⟩
    have hclosing : config.kind i = .community → ∀ id, ¬ s.Closing i id := by
      rintro hkind id ⟨t', rests, hother⟩
      exact hstops ⟨t', _, hother, Or.inr ⟨hkind, id, rests, rfl⟩⟩
    split at hstep
    · cases hstep
      exact h.updates hcall hcreated hupdating hmem hclosing (fun _ hk => hk.symm) rfl nofun
    · split at hstep
      · cases hstep
        exact h.updates hcall hcreated hupdating hmem hclosing (fun _ hk => hk.symm) rfl nofun
      · rename_i k _ _
        cases hstep
        have hid : s.updateRpcSubscriptionId i = none := Option.eq_none_iff_forall_ne_some.2
          fun id hid => Bool.false_ne_true (hupdating.symm.trans (h.held i id hid).1)
        exact ((h.startsUpdating hcreated).setMirrored hcreated (Function.update_self ..) hid
          (fun hkind => (h.stopped i hkind hupdating).2)
          (fun hbusy => Bool.false_ne_true (hupdating.symm.trans (h.busy i hbusy).2.1))).addListeners 1
  | created t k aliases =>
    simp only [Subscriptions.step] at hstep
    split at hstep
    · rename_i i hcall
      split at hstep
      · cases hstep
      · rename_i hcond
        obtain ⟨hfresh, -⟩ := not_or.1 hcond
        cases hstep
        exact h.createdInstance hcall (Bool.of_not_eq_true hfresh)
    · cases hstep
  | createRejected t =>
    simp only [Subscriptions.step] at hstep
    split at hstep
    · rename_i i hcall
      split at hstep <;> cases hstep
      · exact h.setStopping hcall .creating .nil
      · exact h.returns hcall .creating
    · cases hstep
  | subscribed t =>
    simp only [Subscriptions.step] at hstep
    split at hstep
    · rename_i i k hcall
      cases hstep
      exact h.subscribed hcall
    · cases hstep
  | refused t =>
    simp only [Subscriptions.step] at hstep
    split at hstep
    · rename_i i k hcall
      have hok := h.refused hcall
        (fun hkind => Bool.of_not_eq_true fun htracked => by
          cases hkind.symm.trans (hsound i k hcall htracked).1)
        fun _ htracked => (hsound i k hcall htracked).2
      split at hok <;> rename_i hkind <;> rw [hkind] at hstep <;> cases hstep <;> exact hok
    · cases hstep
  | attachHandlers k =>
    obtain ⟨id, hid, rfl⟩ := Option.map_eq_some_iff.1 hstep
    exact h.attach hid
  | stop t i =>
    simp only [Subscriptions.step] at hstep
    split at hstep
    · cases hstep
    · rename_i hcond
      cases hstep
      refine h.setCall (fun old hold => ?_) fun new hnew => ?_
      · exact absurd (by rw [hold]; rfl) (not_or.1 hcond).2
      · cases hnew
        exact .stopping .nil
  | runStop t =>
    simp only [Subscriptions.step] at hstep
    split at hstep
    · rename_i k rests hcall
      split at hstep <;> rename_i hkind <;> cases hstep
      · exact h.stopCommunity hcall hkind (hsound k rests hcall)
      · exact h.stopComment hcall hkind (hsound k rests hcall)
    · cases hstep
  | unsubscribed t resolves =>
    obtain rfl : resolves = true := hsound
    simp only [Subscriptions.step, if_true] at hstep
    split at hstep
    · rename_i k id rests hcall
      have hok := h.unsubscribed hcall
      split at hok <;> rename_i hkind <;> rw [hkind] at hstep <;> cases hstep <;> exact hok
    · cases hstep
  | finish t =>
    simp only [Subscriptions.step] at hstep
    split at hstep
    · rename_i hcall
      cases hstep
      exact h.returns hcall .finishing
    · rename_i rest rests hcall
      cases hstep
      exact h.finish hcall
    · cases hstep

end Steps

/-! ## No call in flight -/

/-- What holds of the subscriptions when no call is in flight. -/
structure Settled {I A T : Type} (s : State I A T) : Prop where
  stopped : ∀ k, s.updating k = false → s.updateRpcSubscriptionId k = none ∧
    (∀ id, s.handlers id ≠ some k) ∧ s.tracked k = false
  issued : ∀ id, id < s.issued → s.unsubscribed id = true ∨
    ∃! k, s.updateRpcSubscriptionId k = some id ∧ s.updating k = true

section Claim

variable {I A T : Type} {config : Config I} {s : State I A T}

theorem Ok.settled (h : Ok config s) (hcalls : ∀ t, s.calls t = none) : Settled s := by
  have hclosing : ∀ k id, ¬ s.Closing k id := by
    rintro k id ⟨t, rests, hcall⟩
    cases (hcalls t).symm.trans hcall
  constructor
  · intro k hupdating
    have hid : ∀ id, s.updateRpcSubscriptionId k ≠ some id := fun id hid =>
      Bool.false_ne_true (hupdating.symm.trans (h.held k id hid).1)
    refine ⟨Option.eq_none_iff_forall_ne_some.2 hid, fun id hhandlers => ?_, ?_⟩
    · exact (h.handlers k id hhandlers).elim (hid id) (hclosing k id)
    · refine Bool.of_not_eq_true fun htracked => ?_
      cases hkind : config.kind k with
      | community => exact Bool.false_ne_true ((h.stopped k hkind hupdating).2.symm.trans htracked)
      | comment =>
        rcases h.comment k hkind htracked with ⟨hk, -⟩ | ⟨id, hk⟩
        · exact Bool.false_ne_true (hupdating.symm.trans hk)
        · exact hclosing k id hk
  · intro id hid
    rcases h.issued id hid with hun | ⟨k, hk⟩ | ⟨k, hk⟩
    · exact Or.inl hun
    · exact Or.inr ⟨k, ⟨hk, (h.held k id hk).1⟩, fun k' hk' => h.once k' k id hk'.1 hk⟩
    · exact absurd hk (hclosing k id)

variable [DecidableEq I] [DecidableEq A] [DecidableEq T] {events : List (Event I A T)}

/-- **Subscriptions follow the instances**: when all calls have settled, no stopped instance has a
subscription, handlers or an entry, every subscription that was issued is held by exactly one
instance that updates or has been unsubscribed, and no subscribe that completes turns an instance to
updating. -/
theorem subscriptions_follow
    (hrun : Run (step config) (Sound config) ({} : State I A T) events s) :
    ((∀ t, s.calls t = none) → Settled s) ∧
      ∀ t s', step config s (.subscribed t) = some s' → ∀ k, s'.updating k = true →
        s.updating k = true := by
  have hok : Ok config s := hrun.invariant (fun _ _ _ h hsound hstep => h.step _ _ _ hsound hstep)
    ok_initial
  refine ⟨hok.settled, fun t s' hstep k' hk' => ?_⟩
  simp only [Subscriptions.step] at hstep
  split at hstep
  · rename_i i k hcall
    cases hstep
    have hk := (hok.busy k ⟨t, _, hcall, rfl⟩).2.1
    simp only [State.subscribed, State.setCall, Function.update_apply] at hk'
    split at hk'
    · rename_i heq
      exact heq ▸ hk
    · exact hk'
  · cases hstep

/-- Communities that were all asked for as the same one. -/
def communities : Config Nat where
  kind _ := .community
  shares _ _ := true

/-- A community updates, and is stopped when it has its subscription. -/
def updatesAndStops : List (Event Nat Nat Unit) :=
  [.create 0 [0], .update () 0, .created () 1 [0], .subscribed (), .attachHandlers 1, .stop () 0,
    .runStop (), .runStop (), .unsubscribed () true, .finish (), .finish (), .finish ()]

theorem subscriptions_follow_updatesAndStops : ∃ s,
    Run (step communities) anyStep ({} : State Nat Nat Unit) updatesAndStops s ∧ s.issued = 1 ∧
      Settled s := by
  obtain ⟨s, hrun, hcalls, hissued⟩ : ∃ s,
      Run (step communities) (Sound communities) ({} : State Nat Nat Unit) updatesAndStops s ∧
        (∀ t, s.calls t = none) ∧ s.issued = 1 := by
    refine ⟨_, .cons trivial rfl <| .cons ?_ rfl <| .cons trivial rfl <| .cons trivial rfl <|
      .cons trivial rfl <| .cons trivial rfl <| .cons ?_ rfl <| .cons ?_ rfl <| .cons rfl rfl <|
      .cons trivial rfl <| .cons trivial rfl <| .cons trivial rfl (.nil _), fun _ => rfl, rfl⟩
    · rintro - ⟨t, call, hcall, -⟩
      cases hcall
    all_goals
      rintro k rests - ⟨t, call, hcall, hk⟩
      cases hcall
      exact hk
  exact ⟨s, hrun.mono fun _ _ _ => trivial, hissued, (subscriptions_follow hrun).1 hcalls⟩

/-- The community is stopped while the subscribe of the tracked instance is under way. -/
def stopsTooEarly : List (Event Nat Nat Bool) :=
  [.create 0 [0], .update false 0, .created false 1 [0], .stop true 0, .runStop true, .runStop true,
    .finish true, .finish true, .finish true, .subscribed false]

theorem not_subscriptions_follow : ∃ s,
    Run (step communities) anyStep ({} : State Nat Nat Bool) stopsTooEarly s ∧
      (∀ t, s.calls t = none) ∧ ¬ Settled s := by
  refine ⟨_, .cons trivial rfl <| .cons trivial rfl <| .cons trivial rfl <| .cons trivial rfl <|
    .cons trivial rfl <| .cons trivial rfl <| .cons trivial rfl <| .cons trivial rfl <|
    .cons trivial rfl <| .cons trivial rfl (.nil _), fun t => by cases t <;> rfl, fun h => ?_⟩
  cases (h.stopped 1 rfl).1

end Claim

end Subscriptions
end Rpc
end Pkc

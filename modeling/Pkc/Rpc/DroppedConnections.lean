import Pkc.Rpc.Connections
import Mathlib.Tactic.Spread

/-!
# What a dropped connection leaves behind

* `ConnectionOk.step` keeps the invariant in every step that is `Sound`: no call attaches after its
  connection was dropped, no cleanup meets an update that is still pending, and none that the
  handler of a disconnection calls is rejected.
* `onlyTouches_step` says that what happens for a connection touches no other.
* `nothing_left` is what a run of such steps leaves behind; `not_nothing_left` is a run in which a
  call attaches too late.
-/

set_option autoImplicit false

namespace Pkc
namespace Rpc

open Runs Tasks

/-! ## What keeps the invariant -/

section Keeps

variable {C S U : Type} {s s' : State C S U} {c : C} {id : S} {sub sub' : Subscription C}

theorem State.Begun.imp (h : s.Begun id sub)
    (hhandles : s'.Handles sub.connectionId id → s.Handles sub.connectionId id) :
    s'.Begun id sub :=
  ⟨h.attached, h.bare, fun hlast hs => h.settings hlast (hhandles hs)⟩

theorem SubscriptionOk.imp (h : SubscriptionOk s id sub)
    (hregistered : s'.Registered sub.connectionId id ↔ s.Registered sub.connectionId id)
    (hhandles : s'.Handles sub.connectionId id → s.Handles sub.connectionId id) :
    SubscriptionOk s' id sub where
  __ := h
  fresh hphase := ⟨(h.fresh hphase).1, mt hregistered.1 (h.fresh hphase).2⟩
  released hphase hs :=
    have hreleased := h.released hphase (mt hregistered.2 hs)
    ⟨hreleased.1, mt hhandles hreleased.2⟩
  settings hs := h.settings (hhandles hs)
  cleaning hphase := (h.cleaning hphase).imp hhandles

theorem connectionOk_initial : ConnectionOk ({} : State C S U) where
  subscription _ _ h := by cases h
  registered c id h := by
    obtain ⟨_, hconnection, hmem⟩ := h
    cases hconnection
    cases hmem
  handles c id h := by
    obtain ⟨_, hconnection, hmem⟩ := h
    cases hconnection
    cases hmem
  looping c rest h := by
    obtain ⟨_, hconnection, hd⟩ := h
    cases hconnection
    cases hd
  cleaning c current rest h := by
    obtain ⟨_, hconnection, hd⟩ := h
    cases hconnection
    cases hd
  unsubscribing _ _ h := by cases h

theorem State.Begun.le (h : s.Begun id sub) (hle : sub'.Le sub) : s.Begun id sub' where
  attached := hle.attached.trans h.attached
  bare := h.bare.le hle.endCleanup
  settings hlast := by
    rw [hle.method] at hlast
    rw [hle.connectionId]
    exact h.settings hlast

theorem KindOk.le (h : KindOk s id sub) (hle : sub'.Le sub) : KindOk s id sub' where
  settings hs := by
    rw [hle.connectionId] at hs
    rw [hle.method]
    exact h.settings hs
  publishing hpublishing := by
    rw [hle.method]
    refine h.publishing (Bool.of_not_eq_false fun hfalse => ?_)
    exact absurd hpublishing (by rw [hle.publishing hfalse]; exact Bool.false_ne_true)
  updating hupdating := by
    rw [hle.method]
    exact h.updating fun hnone => hupdating (hle.updating hnone)

theorem SubscriptionOk.le (h : SubscriptionOk s id sub) (hle : sub'.Le sub)
    (hcleaning : sub'.phase = .cleaning → s.Begun id sub') : SubscriptionOk s id sub' where
  toKindOk := h.toKindOk.le hle
  fresh hphase := by
    rw [hle.attached] at hphase
    rw [hle.connectionId]
    exact (h.fresh hphase).imp (·.le hle) fun h => h
  released hphase hr := by
    rw [hle.attached] at hphase
    rw [hle.connectionId] at hr ⊢
    exact (h.released hphase hr).imp (·.le hle) fun h => h
  cleaning := hcleaning

section Subscriptions

variable [DecidableEq S]

/-- What was known of a subscription is known of it after it went on. -/
theorem exists_setSubscription {P Q : Subscription C → Prop} {id' : S}
    (hsub : s.subscriptions id = some sub) (hnew : id' = id → P sub → Q sub')
    (hsame : ∀ sub, P sub → Q sub) (hex : ∃ sub, s.subscriptions id' = some sub ∧ P sub) :
    ∃ sub, (s.setSubscription id sub').subscriptions id' = some sub ∧ Q sub := by
  obtain ⟨sub₀, hsub₀, hP⟩ := hex
  by_cases heq : id' = id
  · subst heq
    obtain rfl := Option.some.inj (hsub₀.symm.trans hsub)
    exact ⟨sub', update_eq_some.2 (.inl ⟨rfl, rfl⟩), hnew rfl hP⟩
  · exact ⟨sub₀, update_eq_some.2 (.inr ⟨heq, hsub₀⟩), hsame _ hP⟩

theorem ConnectionOk.setSubscription (h : ConnectionOk s) (hsub : s.subscriptions id = some sub)
    (hconn : sub'.connectionId = sub.connectionId) (hok : SubscriptionOk s id sub')
    (hbegun : s.Begun id sub → s.Begun id sub') : ConnectionOk (s.setSubscription id sub') where
  subscription := forall_update (fun sub₀ hsub₀ => by
    obtain rfl := Option.some.inj hsub₀
    exact hok.imp Iff.rfl fun hs => hs) fun id' sub₀ _ hsub₀ =>
      (h.subscription id' sub₀ hsub₀).imp Iff.rfl fun hs => hs
  registered c id' hr :=
    exists_setSubscription hsub (fun _ => hconn.trans) (fun _ h => h) (h.registered c id' hr)
  handles c id' hr :=
    exists_setSubscription hsub (fun _ => hconn.trans) (fun _ h => h) (h.handles c id' hr)
  looping := h.looping
  cleaning c current rest hd := by
    obtain ⟨hall, hcurrent⟩ := h.cleaning c current rest hd
    refine ⟨hall, exists_setSubscription hsub ?_
      (fun _ h => ⟨h.1, h.2.imp fun hs => hs⟩) hcurrent⟩
    rintro rfl ⟨hc, hsub⟩
    exact ⟨hconn.trans hc, (hbegun hsub).imp fun hs => hs⟩
  unsubscribing u id' hu := by
    refine exists_setSubscription hsub ?_ (fun _ h => h.imp fun hs => hs) (h.unsubscribing u id' hu)
    rintro rfl hsub
    exact (hbegun hsub).imp fun hs => hs

/-- A call goes on with no more than it has. -/
theorem ConnectionOk.le (h : ConnectionOk s) (hsub : s.subscriptions id = some sub)
    (hle : sub'.Le sub) (hcleaning : sub'.phase = .cleaning → sub.phase = .cleaning ∨
      s.Begun id sub') : ConnectionOk (s.setSubscription id sub') := by
  have hok := h.subscription id sub hsub
  refine h.setSubscription hsub hle.connectionId (hok.le hle fun hphase => ?_) (·.le hle)
  exact (hcleaning hphase).elim (fun hphase => (hok.cleaning hphase).le hle) fun h => h

end Subscriptions

variable [DecidableEq C]

theorem ConnectionOk.setDisconnection {d : Disconnection S} (h : ConnectionOk s)
    (hlooping : ∀ rest, d = .looping rest → ∀ id, s.Registered c id → id ∈ rest)
    (hcleaning : ∀ current rest, d = .cleaning current rest →
      (∀ id, s.Registered c id → id = current ∨ id ∈ rest) ∧
        ∃ sub, s.subscriptions current = some sub ∧ sub.connectionId = c ∧ s.Begun current sub) :
    ConnectionOk (s.setDisconnection c d) where
  subscription id sub hsub := (h.subscription id sub hsub).imp registered_setDisconnection
    handles_setDisconnection.1
  registered c' id' hr := h.registered c' id' (registered_setDisconnection.1 hr)
  handles c' id' hr := h.handles c' id' (handles_setDisconnection.1 hr)
  looping c' rest hd id' hr := by
    rw [registered_setDisconnection] at hr
    rcases disconnecting_setDisconnection hd with ⟨rfl, heq⟩ | ⟨-, hd⟩
    · exact hlooping rest heq.symm id' hr
    · exact h.looping c' rest hd id' hr
  cleaning c' current rest hd := by
    have hcase : (∀ id, s.Registered c' id → id = current ∨ id ∈ rest) ∧
        ∃ sub, s.subscriptions current = some sub ∧ sub.connectionId = c' ∧
          s.Begun current sub := by
      rcases disconnecting_setDisconnection hd with ⟨rfl, heq⟩ | ⟨-, hd⟩
      · exact hcleaning current rest heq.symm
      · exact h.cleaning c' current rest hd
    obtain ⟨hall, sub, hsub, hc, hbegun⟩ := hcase
    exact ⟨fun id hr => hall id (registered_setDisconnection.1 hr), sub, hsub, hc,
      hbegun.imp handles_setDisconnection.1⟩
  unsubscribing u id' hu := by
    obtain ⟨sub, hsub, hbegun⟩ := h.unsubscribing u id' hu
    exact ⟨sub, hsub, hbegun.imp handles_setDisconnection.1⟩

variable [DecidableEq S]

theorem ConnectionOk.forgetSettings (h : ConnectionOk s) :
    ConnectionOk (s.forgetSettings c id) where
  subscription id' sub hsub := (h.subscription id' sub hsub).imp registered_forgetSettings
    fun hs => (handles_forgetSettings.1 hs).1
  registered c' id' hr := h.registered c' id' (registered_forgetSettings.1 hr)
  handles c' id' hr := h.handles c' id' (handles_forgetSettings.1 hr).1
  looping c' rest hd id' hr :=
    h.looping c' rest (disconnecting_forgetSettings.1 hd) id' (registered_forgetSettings.1 hr)
  cleaning c' current rest hd := by
    obtain ⟨hall, sub, hsub, hc, hbegun⟩ := h.cleaning c' current rest
      (disconnecting_forgetSettings.1 hd)
    exact ⟨fun id hr => hall id (registered_forgetSettings.1 hr), sub, hsub, hc,
      hbegun.imp fun hs => (handles_forgetSettings.1 hs).1⟩
  unsubscribing u id' hu := by
    obtain ⟨sub, hsub, hbegun⟩ := h.unsubscribing u id' hu
    exact ⟨sub, hsub, hbegun.imp fun hs => (handles_forgetSettings.1 hs).1⟩

/-- A cleanup is deleted when nothing is left. -/
theorem ConnectionOk.forgetCleanup (h : ConnectionOk s)
    (hbare : ∀ sub, s.subscriptions id = some sub → sub.connectionId = c →
      sub.Bare ∧ ¬ s.Handles c id) : ConnectionOk (s.forgetCleanup c id) where
  subscription id' sub hsub := by
    have hok := h.subscription id' sub hsub
    exact
      { hok with
        fresh := fun hphase => ⟨(hok.fresh hphase).1, fun hr =>
          (hok.fresh hphase).2 (registered_forgetCleanup.1 hr).1⟩
        released := fun hphase hr => by
          rw [handles_forgetCleanup]
          by_cases hat : sub.connectionId = c ∧ id' = id
          · obtain ⟨rfl, rfl⟩ := hat
            exact hbare sub hsub rfl
          · exact hok.released hphase fun hr' => hr (registered_forgetCleanup.2 ⟨hr', hat⟩)
        settings := fun hs => hok.settings (handles_forgetCleanup.1 hs)
        cleaning := fun hphase => (hok.cleaning hphase).imp handles_forgetCleanup.1 }
  registered c' id' hr := h.registered c' id' (registered_forgetCleanup.1 hr).1
  handles c' id' hr := h.handles c' id' (handles_forgetCleanup.1 hr)
  looping c' rest hd id' hr :=
    h.looping c' rest (disconnecting_forgetCleanup.1 hd) id' (registered_forgetCleanup.1 hr).1
  cleaning c' current rest hd := by
    obtain ⟨hall, sub, hsub, hc, hbegun⟩ := h.cleaning c' current rest
      (disconnecting_forgetCleanup.1 hd)
    exact ⟨fun id hr => hall id (registered_forgetCleanup.1 hr).1, sub, hsub, hc,
      hbegun.imp handles_forgetCleanup.1⟩
  unsubscribing u id' hu := by
    obtain ⟨sub, hsub, hbegun⟩ := h.unsubscribing u id' hu
    exact ⟨sub, hsub, hbegun.imp handles_forgetCleanup.1⟩

theorem subscriptions_beginCleanup :
    (s.beginCleanup id sub).subscriptions = (s.setSubscription id sub.beginCleanup).subscriptions := by
  rw [State.beginCleanup]
  split <;> rfl

theorem subscriptions_endCleanup :
    (s.endCleanup id sub).subscriptions = (s.setSubscription id sub.endCleanup).subscriptions := by
  rw [State.endCleanup]
  split <;> rfl

theorem registered_beginCleanup {c' : C} {id' : S} :
    (s.beginCleanup id sub).Registered c' id' ↔ s.Registered c' id' := by
  rw [State.beginCleanup]
  split <;> simp

theorem registered_endCleanup {c' : C} {id' : S} :
    (s.endCleanup id sub).Registered c' id' ↔ s.Registered c' id' := by
  rw [State.endCleanup]
  split <;> simp

theorem handles_beginCleanup {c' : C} {id' : S} :
    (s.beginCleanup id sub).Handles c' id' ↔ s.Handles c' id' ∧
      ¬ (sub.method.forgetsSettingsFirst = true ∧ c' = sub.connectionId ∧ id' = id) := by
  rw [State.beginCleanup]
  split <;> simp [*]

theorem handles_endCleanup {c' : C} {id' : S} :
    (s.endCleanup id sub).Handles c' id' ↔ s.Handles c' id' ∧
      ¬ (sub.method.forgetsSettingsLast = true ∧ c' = sub.connectionId ∧ id' = id) := by
  rw [State.endCleanup]
  split <;> simp [*]

/-- A cleanup comes to its `stop()`. -/
theorem begun_beginCleanup (hok : KindOk s id sub) (hattached : sub.phase.attached = true)
    (hpending : sub.updating ≠ .pending) : (s.beginCleanup id sub).Begun id sub.beginCleanup where
  attached := sub.le_beginCleanup.attached.trans hattached
  bare := Subscription.bare_of_cleanup hok.publishing hok.updating hpending
  settings hlast hs := by
    rw [sub.le_beginCleanup.method] at hlast
    rw [sub.le_beginCleanup.connectionId] at hs
    obtain ⟨hs, hfirst⟩ := handles_beginCleanup.1 hs
    have hpublish := hok.settings hs
    -- what stores a settings handler forgets it first or last
    cases hmethod : sub.method <;> simp_all [Method.forgetsSettingsFirst,
      Method.forgetsSettingsLast, Method.isPublish]

theorem ConnectionOk.beginCleanup (h : ConnectionOk s) (hsub : s.subscriptions id = some sub)
    (hle : sub'.Le sub) (hcleaning : sub'.phase = .cleaning → sub'.updating ≠ .pending) :
    ConnectionOk (s.beginCleanup id sub') := by
  have hbegun (hphase : sub'.phase = .cleaning) :
      (s.beginCleanup id sub').Begun id sub'.beginCleanup :=
    begun_beginCleanup ((h.subscription id sub hsub).toKindOk.le hle) (by rw [hphase]; rfl)
      (hcleaning hphase)
  have hphase : sub'.beginCleanup.phase = sub'.phase := by
    rw [Subscription.beginCleanup]
    split <;> rfl
  rw [State.beginCleanup] at hbegun ⊢
  split at hbegun
  · rw [if_pos ‹_›]
    -- the settings handler is forgotten before the call is seen to be in its cleanup
    exact h.forgetSettings.le (s := s.forgetSettings sub'.connectionId id) hsub
      (sub'.le_beginCleanup.trans hle) fun hcl =>
        .inr ((hbegun (hphase.symm.trans hcl)).imp fun hs => hs)
  · rw [if_neg ‹_›]
    exact h.le hsub (sub'.le_beginCleanup.trans hle) fun hcl =>
      .inr ((hbegun (hphase.symm.trans hcl)).imp fun hs => hs)

theorem ConnectionOk.endCleanup (h : ConnectionOk s) (hsub : s.subscriptions id = some sub)
    (hle : sub'.Le sub) (hcleaning : sub'.phase = .cleaning → sub.phase = .cleaning) :
    ConnectionOk (s.endCleanup id sub') := by
  have hphase : sub'.endCleanup.phase = sub'.phase := by
    rw [Subscription.endCleanup]
    split <;> rfl
  have hset : ConnectionOk (s.setSubscription id sub'.endCleanup) :=
    h.le hsub (sub'.le_endCleanup.trans hle) fun hcl => .inl (hcleaning (hphase.symm.trans hcl))
  rw [State.endCleanup]
  split
  · exact hset.forgetSettings
  · exact hset

/-- Nothing is left when a cleanup has ended. -/
theorem bare_endCleanup (h : s.Begun id sub) :
    sub.endCleanup.Bare ∧ ¬ (s.endCleanup id sub).Handles sub.connectionId id := by
  refine ⟨h.bare, fun hs => ?_⟩
  obtain ⟨hs, hlast⟩ := handles_endCleanup.1 hs
  refine h.settings (Bool.of_not_eq_true fun hforgets => ?_) hs
  exact hlast ⟨hforgets, rfl, rfl⟩

omit [DecidableEq S] in
/-- The maps of a connection are deleted when no cleanup is left. -/
theorem ConnectionOk.deleteMaps (h : ConnectionOk s) (hnone : ∀ id, ¬ s.Registered c id) :
    ConnectionOk (s.deleteMaps c) := by
  have hsame {P : Connection S → Prop} {c' : C}
      (hex : ∃ connection ∈ (s.deleteMaps c).connections c', P connection) :
      c' ≠ c ∧ ∃ connection ∈ s.connections c', P connection := by
    obtain ⟨connection, hconnection, hP⟩ := hex
    rcases update_eq_some.1 hconnection with ⟨-, hc⟩ | ⟨hne, hconnection⟩
    · cases hc
    · exact ⟨hne, connection, hconnection, hP⟩
  have hregistered {c' : C} {id : S} : (s.deleteMaps c).Registered c' id ↔ s.Registered c' id := by
    refine ⟨fun hr => (hsame hr).2, fun hr => ?_⟩
    have hne : c' ≠ c := fun heq => hnone id (heq ▸ hr)
    obtain ⟨connection, hconnection, hmem⟩ := hr
    exact ⟨connection, update_eq_some.2 (.inr ⟨hne, hconnection⟩), hmem⟩
  exact
    { subscription := fun id sub hsub => (h.subscription id sub hsub).imp hregistered fun hs =>
        (hsame hs).2
      registered := fun c' id hr => h.registered c' id (hregistered.1 hr)
      handles := fun c' id hs => h.handles c' id (hsame hs).2
      looping := fun c' rest hd id hr => h.looping c' rest (hsame hd).2 id (hregistered.1 hr)
      cleaning := fun c' current rest hd => by
        obtain ⟨hall, sub, hsub, hc, hbegun⟩ := h.cleaning c' current rest (hsame hd).2
        exact ⟨fun id hr => hall id (hregistered.1 hr), sub, hsub, hc,
          hbegun.imp fun hs => (hsame hs).2⟩
      unsubscribing := fun u id hu => by
        obtain ⟨sub, hsub, hbegun⟩ := h.unsubscribing u id hu
        exact ⟨sub, hsub, hbegun.imp fun hs => (hsame hs).2⟩ }

omit [DecidableEq C] in
theorem ConnectionOk.call {method : Method} (h : ConnectionOk s)
    (hnew : s.subscriptions id = none) :
    ConnectionOk (s.setSubscription id { connectionId := c, method := method }) := by
  have hne {id' : S} {P : Subscription C → Prop}
      (hex : ∃ sub, s.subscriptions id' = some sub ∧ P sub) :
      ∃ sub, (s.setSubscription id { connectionId := c, method := method }).subscriptions id' =
        some sub ∧ P sub := by
    obtain ⟨sub, hsub, hP⟩ := hex
    have hne : id' ≠ id := by
      rintro rfl
      rw [hnew] at hsub
      cases hsub
    exact ⟨sub, update_eq_some.2 (.inr ⟨hne, hsub⟩), hP⟩
  exact
    { subscription := forall_update (fun sub hsub => by
        obtain rfl := Option.some.inj hsub
        refine
          { fresh := fun _ => ⟨⟨rfl, rfl, rfl⟩, fun hr => ?_⟩
            released := fun hphase => by cases hphase
            settings := fun hs => ?_
            publishing := fun hp => by cases hp
            updating := fun hu => absurd rfl hu
            cleaning := fun hphase => by cases hphase }
        · obtain ⟨sub, hsub, -⟩ := h.handles c id hs
          rw [hnew] at hsub
          cases hsub
        · obtain ⟨sub, hsub, -⟩ := h.registered c id hr
          rw [hnew] at hsub
          cases hsub) fun id' sub _ hsub => (h.subscription id' sub hsub).imp Iff.rfl fun hs => hs
      registered := fun c' id' hr => hne (h.registered c' id' hr)
      handles := fun c' id' hs => hne (h.handles c' id' hs)
      looping := h.looping
      cleaning := fun c' current rest hd => by
        obtain ⟨hall, hex⟩ := h.cleaning c' current rest hd
        obtain ⟨sub, hsub, hc, hbegun⟩ := hne hex
        exact ⟨hall, sub, hsub, hc, hbegun.imp fun hs => hs⟩
      unsubscribing := fun u id' hu => by
        obtain ⟨sub, hsub, hbegun⟩ := hne (h.unsubscribing u id' hu)
        exact ⟨sub, hsub, hbegun.imp fun hs => hs⟩ }

/-- A settings handler is stored for a call that is not publishing, before its cleanup has begun. -/
theorem ConnectionOk.storeSettings (h : ConnectionOk s) (hsub : s.subscriptions id = some sub)
    (hpublish : sub.method.isPublish = false) (hreleased : sub.phase.attached = true →
      s.Registered sub.connectionId id) (hbegun : ¬ s.Begun id sub) :
    ConnectionOk (s.storeSettings sub.connectionId id) := by
  have hsame {id' : S} {sub' : Subscription C} (hsub' : s.subscriptions id' = some sub')
      (hne : id' ≠ id) (hs : (s.storeSettings sub.connectionId id).Handles sub'.connectionId id') :
      s.Handles sub'.connectionId id' :=
    (handles_storeSettings.1 hs).resolve_right fun heq => hne heq.2.2
  have hother {id' : S} {sub' : Subscription C} (hsub' : s.subscriptions id' = some sub')
      (hb : s.Begun id' sub') : (s.storeSettings sub.connectionId id).Begun id' sub' := by
    refine hb.imp (hsame hsub' ?_)
    rintro rfl
    obtain rfl := Option.some.inj (hsub'.symm.trans hsub)
    exact hbegun hb
  exact
    { subscription := fun id' sub' hsub' => by
        have hok := h.subscription id' sub' hsub'
        by_cases heq : id' = id
        · subst heq
          obtain rfl := Option.some.inj (hsub'.symm.trans hsub)
          exact
            { hok with
              fresh := fun hphase => ⟨(hok.fresh hphase).1, fun hr =>
                (hok.fresh hphase).2 (registered_storeSettings.1 hr)⟩
              released := fun hphase hr =>
                absurd (registered_storeSettings.2 (hreleased hphase)) hr
              settings := fun _ => hpublish
              cleaning := fun hphase => absurd (hok.cleaning hphase) hbegun }
        · exact hok.imp registered_storeSettings (hsame hsub' heq)
      registered := fun c' id' hr => h.registered c' id' (registered_storeSettings.1 hr)
      handles := fun c' id' hs => by
        rcases handles_storeSettings.1 hs with hs | ⟨-, rfl, rfl⟩
        · exact h.handles c' id' hs
        · exact ⟨sub, hsub, rfl⟩
      looping := fun c' rest hd id' hr =>
        h.looping c' rest (disconnecting_storeSettings.1 hd) id' (registered_storeSettings.1 hr)
      cleaning := fun c' current rest hd => by
        obtain ⟨hall, sub', hsub', hc, hb⟩ := h.cleaning c' current rest
          (disconnecting_storeSettings.1 hd)
        exact ⟨fun id hr => hall id (registered_storeSettings.1 hr), sub', hsub', hc,
          hother hsub' hb⟩
      unsubscribing := fun u id' hu => by
        obtain ⟨sub', hsub', hb⟩ := h.unsubscribing u id' hu
        exact ⟨sub', hsub', hother hsub' hb⟩ }

/-- A call of a connection that was not dropped stores its cleanup. -/
theorem ConnectionOk.storeCleanup (h : ConnectionOk s) (hsub : s.subscriptions id = some sub)
    (hfresh : sub.phase.attached = false) (hconn : sub'.connectionId = sub.connectionId)
    (hconnected : s.Disconnecting sub.connectionId .connected)
    (hattached : sub'.phase = .working ∨ sub'.phase = .settled) (hkind : KindOk s id sub') :
    ConnectionOk ((s.setSubscription id sub').storeCleanup sub.connectionId id) := by
  obtain ⟨connection, hconnection, hd⟩ := hconnected
  have hok := h.subscription id sub hsub
  have hsome : s.connections sub.connectionId ≠ none := by
    rw [hconnection]
    exact Option.some_ne_none _
  have hregistered {c' : C} {id' : S} :
      ((s.setSubscription id sub').storeCleanup sub.connectionId id).Registered c' id' ↔
        s.Registered c' id' ∨ c' = sub.connectionId ∧ id' = id := by
    rw [registered_storeCleanup, registered_setSubscription]
    exact or_congr_right (and_iff_right hsome)
  have hexists {id' : S} {P Q : Subscription C → Prop}
      (hnew : id' = id → P sub → Q sub') (hsame : ∀ sub, P sub → Q sub)
      (hex : ∃ sub, s.subscriptions id' = some sub ∧ P sub) :=
    exists_setSubscription hsub hnew hsame hex
  have hnot (hb : s.Begun id sub) : False := by
    have hat := hb.attached
    rw [hfresh] at hat
    cases hat
  -- no disconnection is under way in this connection
  have hdisconnecting {c' : C} {d : Disconnection S} (hd' : s.Disconnecting c' d)
      (hne : d ≠ .connected) : c' ≠ sub.connectionId := by
    rintro rfl
    obtain ⟨connection', hconnection', rfl⟩ := hd'
    obtain rfl := Option.some.inj (hconnection.symm.trans hconnection')
    exact hne hd
  exact
    { subscription := forall_update (fun sub₀ hsub₀ => by
        obtain rfl := Option.some.inj hsub₀
        exact
          { hkind with
            fresh := fun hphase => by
              rcases hattached with heq | heq <;> rw [heq] at hphase <;> cases hphase
            released := fun _ hr => absurd (hregistered.2 (.inr ⟨hconn, rfl⟩)) hr
            settings := fun hs => hkind.settings (handles_storeCleanup.1 hs)
            cleaning := fun hphase => by
              rcases hattached with heq | heq <;> rw [heq] at hphase <;> cases hphase })
        fun id' sub₀ hne hsub₀ => (h.subscription id' sub₀ hsub₀).imp
          (hregistered.trans (or_iff_left fun heq => hne heq.2)) handles_storeCleanup.1
      registered := fun c' id' hr => by
        rcases hregistered.1 hr with hr | ⟨rfl, rfl⟩
        · exact hexists (fun _ => hconn.trans) (fun _ h => h) (h.registered c' id' hr)
        · exact ⟨sub', update_eq_some.2 (.inl ⟨rfl, rfl⟩), hconn⟩
      handles := fun c' id' hs =>
        hexists (fun _ => hconn.trans) (fun _ h => h) (h.handles c' id' (handles_storeCleanup.1 hs))
      looping := fun c' rest hd' id' hr => by
        rw [disconnecting_storeCleanup, disconnecting_setSubscription] at hd'
        exact h.looping c' rest hd' id' ((hregistered.1 hr).resolve_right fun heq =>
          hdisconnecting hd' (by simp) heq.1)
      cleaning := fun c' current rest hd' => by
        rw [disconnecting_storeCleanup, disconnecting_setSubscription] at hd'
        obtain ⟨hall, hex⟩ := h.cleaning c' current rest hd'
        refine ⟨fun id' hr => hall id' ((hregistered.1 hr).resolve_right fun heq =>
          hdisconnecting hd' (by simp) heq.1), hexists ?_ ?_ hex⟩
        · rintro rfl ⟨-, hb⟩
          exact (hnot hb).elim
        · exact fun sub₀ hb => hb.imp (fun h => h) (·.imp handles_storeCleanup.1)
      unsubscribing := fun u id' hu => by
        refine hexists ?_ (fun _ hb => hb.imp handles_storeCleanup.1) (h.unsubscribing u id' hu)
        rintro rfl hb
        exact (hnot hb).elim }

omit [DecidableEq C] [DecidableEq S] in
theorem SubscriptionOk.attached (h : SubscriptionOk s id sub)
    (hr : s.Registered sub.connectionId id) : sub.phase.attached = true := by
  by_contra hphase
  exact (h.fresh (Bool.of_not_eq_true hphase)).2 hr

omit [DecidableEq C] in
theorem mem_toVisit {connection : Connection S} {rest : List S} (hrest : id ∈ rest)
    (hmem : id ∈ connection.subscriptionCleanups) : id ∈ connection.toVisit rest := by
  induction rest with
  | nil => cases hrest
  | cons head rest ih =>
    rw [Connection.toVisit, List.dropWhile_cons]
    split
    · rename_i hgone
      rcases List.mem_cons.1 hrest with rfl | hrest
      · exact absurd hmem (of_decide_eq_true hgone)
      · exact ih hrest
    · exact hrest

theorem stored_of_toVisit {connection : Connection S} {rest rest' : List S}
    (h : connection.toVisit rest = id :: rest') : id ∈ connection.subscriptionCleanups := by
  have hhead := List.head?_dropWhile_not
    (fun id => decide (id ∉ connection.subscriptionCleanups)) rest
  rw [← Connection.toVisit, h] at hhead
  simpa using hhead

theorem ConnectionOk.attach (h : ConnectionOk s) (hsub : s.subscriptions id = some sub)
    (hfresh : sub.phase.attached = false) (hconn : sub'.connectionId = sub.connectionId)
    (hconnected : s.Disconnecting sub.connectionId .connected)
    (hattached : sub'.phase = .working ∨ sub'.phase = .settled) (hlisteners : sub'.listeners = true)
    (hkind : KindOk s id sub') : ConnectionOk (s.attach id sub') := by
  have hstore := h.storeCleanup hsub hfresh hconn hconnected hattached hkind
  rw [← hconn] at hconnected hstore
  rw [State.attach]
  split
  · rename_i hupdate
    refine hstore.storeSettings (update_eq_some.2 (.inl ⟨rfl, rfl⟩)) ?_ (fun _ => ?_) ?_
    · cases hmethod : sub'.method <;> simp_all [Method.isUpdate, Method.isPublish]
    · obtain ⟨connection, hconnection, -⟩ := hconnected
      exact registered_storeCleanup.2 (.inr ⟨by
        rw [show (s.setSubscription id sub').connections = s.connections from rfl, hconnection]
        exact Option.some_ne_none _, rfl, rfl⟩)
    · -- its listeners are there
      intro hbegun
      have hnone := hbegun.bare.listeners
      rw [Subscription.endCleanup] at hnone
      cases hmethod : sub'.method <;> simp_all [Method.isUpdate]
  · exact hstore

/-- The loop of the handler of a disconnection goes on. -/
theorem ConnectionOk.visit {connection : Connection S} {rest : List S} (h : ConnectionOk s)
    (hconnection : s.connections c = some connection)
    (hlooping : connection.disconnection = .looping rest)
    (hpending : ∀ id ∈ (connection.toVisit rest).head?, ∀ sub ∈ s.subscriptions id,
      sub.updating ≠ .pending) (hvisit : s.visit c connection rest = some s') :
    ConnectionOk s' := by
  -- what is passed over is no longer stored
  have htoVisit {id : S} (hr : s.Registered c id) : id ∈ connection.toVisit rest := by
    have hrest := h.looping c rest ⟨connection, hconnection, hlooping⟩ id hr
    obtain ⟨connection', hconnection', hmem⟩ := hr
    obtain rfl := Option.some.inj (hconnection.symm.trans hconnection')
    exact mem_toVisit hrest hmem
  rw [State.visit] at hvisit
  split at hvisit
  · rename_i hnil
    cases hvisit
    refine h.deleteMaps fun id hr => ?_
    have hin := htoVisit hr
    rw [hnil] at hin
    cases hin
  · rename_i id rest' hcons
    obtain ⟨sub, hsub, rfl⟩ := Option.map_eq_some_iff.1 hvisit
    have hr : s.Registered c id := ⟨connection, hconnection, stored_of_toVisit hcons⟩
    obtain ⟨sub', hsub', hc⟩ := h.registered c id hr
    obtain rfl := Option.some.inj (hsub'.symm.trans hsub)
    have hok := h.subscription id sub' hsub
    have hupdating := hpending id (by rw [hcons]; rfl) sub' hsub
    have hbegin := h.beginCleanup hsub ⟨rfl, rfl, rfl, fun h => h, fun h => h, fun h => h⟩
      fun _ => hupdating
    refine hbegin.setDisconnection (fun rest heq => by cases heq) fun current rest heq => ?_
    cases heq
    refine ⟨fun id' hr' => ?_, sub'.beginCleanup, ?_, ?_, begun_beginCleanup hok.toKindOk
      (hok.attached (hc ▸ hr)) hupdating⟩
    · have hin := htoVisit (registered_beginCleanup.1 hr')
      rw [hcons] at hin
      exact List.mem_cons.1 hin
    · rw [subscriptions_beginCleanup]
      exact update_eq_some.2 (.inl ⟨rfl, rfl⟩)
    · exact sub'.le_beginCleanup.connectionId.trans hc

/-- A cleanup has ended, and is no longer stored. -/
theorem ConnectionOk.ended (h : ConnectionOk s) (hsub : s.subscriptions id = some sub)
    (hbegun : s.Begun id sub) :
    ConnectionOk ((s.endCleanup id sub).forgetCleanup sub.connectionId id) := by
  have hend := h.endCleanup hsub ⟨rfl, rfl, rfl, fun h => h, fun h => h, fun h => h⟩ fun h => h
  refine hend.forgetCleanup fun sub' hsub' _ => ?_
  rw [subscriptions_endCleanup] at hsub'
  rcases update_eq_some.1 hsub' with ⟨-, heq⟩ | ⟨hne, -⟩
  · obtain rfl := Option.some.inj heq
    exact bare_endCleanup hbegun
  · exact absurd rfl hne

variable [DecidableEq U]

omit [DecidableEq C] [DecidableEq S] in
theorem ConnectionOk.setUnsubscribe {u : U} {task : Option S} (h : ConnectionOk s)
    (hnew : ∀ id, task = some id → ∃ sub, s.subscriptions id = some sub ∧ s.Begun id sub) :
    ConnectionOk { s with unsubscribes := Function.update s.unsubscribes u task } where
  __ := h
  subscription id sub hsub := (h.subscription id sub hsub).imp Iff.rfl fun hs => hs
  cleaning c current rest hd := by
    obtain ⟨hall, sub, hsub, hc, hbegun⟩ := h.cleaning c current rest hd
    exact ⟨hall, sub, hsub, hc, hbegun.imp fun hs => hs⟩
  unsubscribing := forall_update (fun id hid => by
    obtain ⟨sub, hsub, hbegun⟩ := hnew id hid
    exact ⟨sub, hsub, hbegun.imp fun hs => hs⟩) fun u' id _ hu => by
      obtain ⟨sub, hsub, hbegun⟩ := h.unsubscribing u' id hu
      exact ⟨sub, hsub, hbegun.imp fun hs => hs⟩

/-- **Every sound step keeps the cleanups in order.** -/
theorem ConnectionOk.step {t : State C S U} {event : Event C S U} (h : ConnectionOk s)
    (hsound : Sound s event) (hstep : step s event = some t) : ConnectionOk t := by
  cases event with
  | call id c method =>
    simp only [Rpc.step] at hstep
    split at hstep
    · cases hstep
      exact h.call ‹_›
    · cases hstep
  | storeSettingsHandler id =>
    obtain ⟨sub, hsub, hstep⟩ := Option.bind_eq_some_iff.1 hstep
    split at hstep
    · rename_i hguard
      split at hstep
      · cases hstep
        exact h.le hsub ⟨rfl, rfl, by rw [hguard.2]; rfl, fun h => h, fun h => h, fun h => h⟩
          fun hphase => by cases hphase
      · cases hstep
        have hset : ConnectionOk (s.setSubscription id { sub with phase := .awaitingCommunity }) :=
          h.le hsub ⟨rfl, rfl, by rw [hguard.2]; rfl, fun h => h, fun h => h, fun h => h⟩
            fun hphase => by cases hphase
        have hsub' : (s.setSubscription id { sub with phase := .awaitingCommunity }).subscriptions
            id = some { sub with phase := .awaitingCommunity } := update_eq_some.2 (.inl ⟨rfl, rfl⟩)
        have hstored := hset.storeSettings hsub' (by rw [hguard.1]; rfl)
          (fun hphase => by cases hphase) fun hbegun => by cases hbegun.attached
        exact hstored
    · cases hstep
  | refuse id =>
    obtain ⟨sub, hsub, hstep⟩ := Option.bind_eq_some_iff.1 hstep
    split at hstep
    · rename_i hguard
      cases hstep
      refine h.le hsub ⟨rfl, rfl, ?_, fun h => h, fun h => h, fun h => h⟩
        fun hphase => by cases hphase
      rcases hguard with hphase | hphase <;> rw [hphase] <;> rfl
    · cases hstep
  | attach id isStarted =>
    obtain ⟨sub, hsub, hstep⟩ := Option.bind_eq_some_iff.1 hstep
    split at hstep
    · rename_i hready
      have hconnected := hsound sub hsub
      have hok := h.subscription id sub hsub
      have hfresh : sub.phase.attached = false := by
        unfold Subscription.Ready at hready
        split at hready <;> rw [hready] <;> rfl
      split at hstep
      · obtain ⟨connection, hconnection, -⟩ := hconnected
        exact absurd (hconnection.symm.trans ‹_›) (Option.some_ne_none _)
      · cases hstep
        refine h.attach hsub hfresh (show (sub.attach isStarted).connectionId = _ from rfl)
          hconnected ?_ rfl
          { settings := hok.settings
            publishing := fun hp => hp
            updating := fun hu => ?_ }
        · rw [Subscription.attach]
          cases isStarted && sub.method.joinsStarted
          · exact .inl rfl
          · exact .inr rfl
        · by_contra hfalse
          have hfalse : sub.method.isUpdate = false := Bool.of_not_eq_true hfalse
          exact hu (if_neg (by simp [hfalse]))
    · cases hstep
  | workSettles id resolves =>
    obtain ⟨sub, hsub, hstep⟩ := Option.bind_eq_some_iff.1 hstep
    split at hstep
    · rename_i hphase
      have hsettle : sub.updating = .none → sub.updating.settle resolves = .none := by
        intro hnone
        rw [hnone]
        rfl
      simp only at hstep
      split at hstep
      · cases hstep
        refine h.beginCleanup hsub ⟨rfl, rfl, by rw [hphase]; rfl, fun h => h, fun h => h, hsettle⟩
          fun _ => ?_
        cases hu : sub.updating <;> cases resolves <;> simp [Updating.settle]
      · cases hstep
        exact h.le hsub ⟨rfl, rfl, by rw [hphase]; rfl, fun h => h, fun h => h, hsettle⟩
          fun hcl => by cases hcl
    · cases hstep
  | cleaned id resolves =>
    obtain ⟨sub, hsub, hstep⟩ := Option.bind_eq_some_iff.1 hstep
    split at hstep
    · rename_i hphase
      have hle : Subscription.Le { sub with phase := .settled } sub :=
        ⟨rfl, rfl, by rw [hphase]; rfl, fun h => h, fun h => h, fun h => h⟩
      simp only at hstep
      split at hstep
      · cases hstep
        exact h.endCleanup hsub hle fun hcl => by cases hcl
      · cases hstep
        exact h.le hsub hle fun hcl => by cases hcl
    · cases hstep
  | strand id =>
    obtain ⟨sub, hsub, hstep⟩ := Option.bind_eq_some_iff.1 hstep
    split at hstep
    · rename_i hattached
      cases hstep
      refine h.le hsub ⟨rfl, rfl, rfl, fun h => h, fun h => h, fun hnone => ?_⟩ fun hcl => .inl hcl
      rw [hattached] at hnone
      cases hnone
    · cases hstep
  | recovered id resolves =>
    obtain ⟨sub, hsub, hstep⟩ := Option.bind_eq_some_iff.1 hstep
    split at hstep
    · rename_i hguard
      cases hstep
      refine h.le hsub ⟨rfl, rfl, rfl, fun h => h, fun h => h, fun hnone => ?_⟩ fun hcl => .inl hcl
      rw [hguard.2] at hnone
      cases hnone
    · cases hstep
  | disconnect c order =>
    obtain ⟨connection, hconnection, hstep⟩ := Option.bind_eq_some_iff.1 hstep
    split at hstep
    · rename_i hguard
      cases hstep
      refine h.setDisconnection (fun rest heq id hr => ?_) fun current rest heq => by cases heq
      cases heq
      obtain ⟨connection', hconnection', hmem⟩ := hr
      obtain rfl := Option.some.inj (hconnection.symm.trans hconnection')
      exact hguard.2.mem_iff.2 hmem
    · cases hstep
  | visit c =>
    obtain ⟨connection, hconnection, hstep⟩ := Option.bind_eq_some_iff.1 hstep
    split at hstep
    · exact h.visit hconnection ‹_› (hsound connection hconnection _ ‹_›) hstep
    · cases hstep
  | visited c resolves =>
    obtain ⟨connection, hconnection, hstep⟩ := Option.bind_eq_some_iff.1 hstep
    split at hstep
    · rename_i id rest hcleaning
      have hresolves : resolves = true := hsound
      rw [if_pos hresolves] at hstep
      obtain ⟨sub, hsub, rfl⟩ := Option.map_eq_some_iff.1 hstep
      obtain ⟨hall, sub', hsub', hc, hbegun⟩ :=
        h.cleaning c id rest ⟨connection, hconnection, hcleaning⟩
      obtain rfl := Option.some.inj (hsub'.symm.trans hsub)
      have hended := h.ended hsub hbegun
      rw [hc] at hended
      refine hended.setDisconnection (fun rest' heq id' hr => ?_)
        fun current rest' heq => by cases heq
      cases heq
      obtain ⟨hr, hne⟩ := registered_forgetCleanup.1 hr
      exact (hall id' (registered_endCleanup.1 hr)).resolve_left fun heq => hne ⟨rfl, heq⟩
    · cases hstep
  | unsubscribe u id =>
    obtain ⟨sub, hsub, hstep⟩ := Option.bind_eq_some_iff.1 hstep
    split at hstep
    · rename_i hguard
      cases hstep
      have hok := h.subscription id sub hsub
      have hpending := hsound sub hsub
      refine (h.beginCleanup hsub ⟨rfl, rfl, rfl, fun h => h, fun h => h, fun h => h⟩
        fun _ => hpending).setUnsubscribe fun id' heq => ?_
      obtain rfl := Option.some.inj heq
      refine ⟨sub.beginCleanup, ?_, begun_beginCleanup hok.toKindOk (hok.attached hguard.2) hpending⟩
      rw [subscriptions_beginCleanup]
      exact update_eq_some.2 (.inl ⟨rfl, rfl⟩)
    · cases hstep
  | unsubscribed u resolves =>
    obtain ⟨id, hu, hstep⟩ := Option.bind_eq_some_iff.1 hstep
    obtain ⟨sub, hsub, hstep⟩ := Option.bind_eq_some_iff.1 hstep
    obtain ⟨sub', hsub', hbegun⟩ := h.unsubscribing u id hu
    obtain rfl := Option.some.inj (hsub'.symm.trans hsub)
    have hset : ConnectionOk { s with unsubscribes := Function.update s.unsubscribes u none } :=
      h.setUnsubscribe fun _ heq => by cases heq
    simp only at hstep
    split at hstep
    · cases hstep
      exact hset.ended hsub (hbegun.imp fun hs => hs)
    · cases hstep
      exact hset

end Keeps

/-! ## Other connections -/

section Others

variable {C S U : Type} {s t r : State C S U} {c : C} {id : S} {sub sub' : Subscription C}

/-- The connection for which something happens. -/
def Event.connectionId (s : State C S U) : Event C S U → Option C
  | .call _ c _ | .disconnect c _ | .visit c | .visited c _ => some c
  | .storeSettingsHandler id | .refuse id | .attach id _ | .workSettles id _ | .cleaned id _
  | .strand id | .recovered id _ | .unsubscribe _ id => (s.subscriptions id).map (·.connectionId)
  | .unsubscribed u _ => (s.unsubscribes u).bind fun id => (s.subscriptions id).map (·.connectionId)

/-- Nothing of the other connections changes. -/
structure OnlyTouches (c : C) (s t : State C S U) : Prop where
  connections : ∀ c', c' ≠ c → t.connections c' = s.connections c'
  subscriptions : ∀ id sub, s.subscriptions id = some sub → sub.connectionId ≠ c →
    t.subscriptions id = some sub

theorem OnlyTouches.trans (h : OnlyTouches c s t) (h' : OnlyTouches c t r) : OnlyTouches c s r :=
  ⟨fun c' hne => (h'.connections c' hne).trans (h.connections c' hne), fun id sub hsub hne =>
    h'.subscriptions id sub (h.subscriptions id sub hsub hne) hne⟩

theorem onlyTouches_setSubscription [DecidableEq S]
    (hsub : ∀ sub₀, s.subscriptions id = some sub₀ → sub₀.connectionId = c) :
    OnlyTouches c s (s.setSubscription id sub) where
  connections _ _ := rfl
  subscriptions id' sub' hsub' hne := by
    refine update_eq_some.2 (.inr ⟨?_, hsub'⟩)
    rintro rfl
    exact hne (hsub sub' hsub')

theorem onlyTouches_mapConnection [DecidableEq C] {f : Connection S → Connection S} :
    OnlyTouches c s (s.mapConnection c f) where
  connections _ hne := Function.update_of_ne hne _ _
  subscriptions _ _ h _ := h

variable [DecidableEq C] [DecidableEq S]

theorem onlyTouches_beginCleanup (hconn : sub.connectionId = c)
    (hsub : ∀ sub₀, s.subscriptions id = some sub₀ → sub₀.connectionId = c) :
    OnlyTouches c s (s.beginCleanup id sub) := by
  subst hconn
  rw [State.beginCleanup]
  split
  · exact (onlyTouches_setSubscription hsub).trans onlyTouches_mapConnection
  · exact onlyTouches_setSubscription hsub

theorem onlyTouches_endCleanup (hconn : sub.connectionId = c)
    (hsub : ∀ sub₀, s.subscriptions id = some sub₀ → sub₀.connectionId = c) :
    OnlyTouches c s (s.endCleanup id sub) := by
  subst hconn
  rw [State.endCleanup]
  split
  · exact (onlyTouches_setSubscription hsub).trans onlyTouches_mapConnection
  · exact onlyTouches_setSubscription hsub

theorem onlyTouches_attach (hconn : sub.connectionId = c)
    (hsub : ∀ sub₀, s.subscriptions id = some sub₀ → sub₀.connectionId = c) :
    OnlyTouches c s (s.attach id sub) := by
  subst hconn
  have hstore : OnlyTouches sub.connectionId s
    ((s.setSubscription id sub).storeCleanup sub.connectionId id) :=
    (onlyTouches_setSubscription hsub).trans onlyTouches_mapConnection
  rw [State.attach]
  split
  · exact hstore.trans onlyTouches_mapConnection
  · exact hstore

/-- The subscription that the loop has come to is one of its connection. -/
theorem onlyTouches_visit {connection : Connection S} {rest : List S} (h : ConnectionOk s)
    (hconnection : s.connections c = some connection)
    (hvisit : s.visit c connection rest = some t) : OnlyTouches c s t := by
  rw [State.visit] at hvisit
  split at hvisit
  · cases hvisit
    exact ⟨fun _ hne => Function.update_of_ne hne _ _, fun _ _ h _ => h⟩
  · rename_i id rest' hcons
    obtain ⟨sub, hsub, rfl⟩ := Option.map_eq_some_iff.1 hvisit
    obtain ⟨sub', hsub', hc⟩ := h.registered c id ⟨connection, hconnection, stored_of_toVisit hcons⟩
    obtain rfl := Option.some.inj (hsub'.symm.trans hsub)
    refine (onlyTouches_beginCleanup hc fun sub₀ hsub₀ => ?_).trans onlyTouches_mapConnection
    obtain rfl := Option.some.inj (hsub₀.symm.trans hsub)
    exact hc

variable [DecidableEq U]

/-- **What happens for a connection touches no other.** -/
theorem onlyTouches_step {event : Event C S U} (h : ConnectionOk s)
    (hstep : step s event = some t) :
    ∃ c, event.connectionId s = some c ∧ OnlyTouches c s t := by
  have hmine {id : S} {sub : Subscription C} (hsub : s.subscriptions id = some sub) :
      ∀ sub₀, s.subscriptions id = some sub₀ → sub₀.connectionId = sub.connectionId := by
    intro sub₀ hsub₀
    obtain rfl := Option.some.inj (hsub₀.symm.trans hsub)
    rfl
  have hmap {id : S} {sub : Subscription C} (hsub : s.subscriptions id = some sub) :
      (s.subscriptions id).map (·.connectionId) = some sub.connectionId := by
    rw [hsub]
    rfl
  cases event with
  | call id c method =>
    refine ⟨c, rfl, ?_⟩
    simp only [step] at hstep
    split at hstep
    · rename_i hnew _
      cases hstep
      exact onlyTouches_setSubscription fun sub₀ hsub₀ => by
        rw [hnew] at hsub₀
        cases hsub₀
    · cases hstep
  | storeSettingsHandler id =>
    obtain ⟨sub, hsub, hstep⟩ := Option.bind_eq_some_iff.1 hstep
    refine ⟨sub.connectionId, hmap hsub, ?_⟩
    split at hstep
    · split at hstep
      · cases hstep
        exact onlyTouches_setSubscription (hmine hsub)
      · cases hstep
        exact (onlyTouches_setSubscription (hmine hsub)).trans onlyTouches_mapConnection
    · cases hstep
  | refuse id =>
    obtain ⟨sub, hsub, hstep⟩ := Option.bind_eq_some_iff.1 hstep
    refine ⟨sub.connectionId, hmap hsub, ?_⟩
    split at hstep
    · cases hstep
      exact onlyTouches_setSubscription (hmine hsub)
    · cases hstep
  | attach id isStarted =>
    obtain ⟨sub, hsub, hstep⟩ := Option.bind_eq_some_iff.1 hstep
    refine ⟨sub.connectionId, hmap hsub, ?_⟩
    split at hstep
    · split at hstep
      · cases hstep
        exact onlyTouches_setSubscription (hmine hsub)
      · cases hstep
        exact onlyTouches_attach rfl (hmine hsub)
    · cases hstep
  | workSettles id resolves =>
    obtain ⟨sub, hsub, hstep⟩ := Option.bind_eq_some_iff.1 hstep
    refine ⟨sub.connectionId, hmap hsub, ?_⟩
    split at hstep
    · simp only at hstep
      split at hstep
      · cases hstep
        exact onlyTouches_beginCleanup rfl (hmine hsub)
      · cases hstep
        exact onlyTouches_setSubscription (hmine hsub)
    · cases hstep
  | cleaned id resolves =>
    obtain ⟨sub, hsub, hstep⟩ := Option.bind_eq_some_iff.1 hstep
    refine ⟨sub.connectionId, hmap hsub, ?_⟩
    split at hstep
    · simp only at hstep
      split at hstep
      · cases hstep
        exact onlyTouches_endCleanup rfl (hmine hsub)
      · cases hstep
        exact onlyTouches_setSubscription (hmine hsub)
    · cases hstep
  | strand id =>
    obtain ⟨sub, hsub, hstep⟩ := Option.bind_eq_some_iff.1 hstep
    refine ⟨sub.connectionId, hmap hsub, ?_⟩
    split at hstep
    · cases hstep
      exact onlyTouches_setSubscription (hmine hsub)
    · cases hstep
  | recovered id resolves =>
    obtain ⟨sub, hsub, hstep⟩ := Option.bind_eq_some_iff.1 hstep
    refine ⟨sub.connectionId, hmap hsub, ?_⟩
    split at hstep
    · cases hstep
      exact onlyTouches_setSubscription (hmine hsub)
    · cases hstep
  | disconnect c order =>
    obtain ⟨connection, hconnection, hstep⟩ := Option.bind_eq_some_iff.1 hstep
    refine ⟨c, rfl, ?_⟩
    split at hstep
    · cases hstep
      exact onlyTouches_mapConnection
    · cases hstep
  | visit c =>
    obtain ⟨connection, hconnection, hstep⟩ := Option.bind_eq_some_iff.1 hstep
    refine ⟨c, rfl, ?_⟩
    split at hstep
    · exact onlyTouches_visit h hconnection hstep
    · cases hstep
  | visited c resolves =>
    obtain ⟨connection, hconnection, hstep⟩ := Option.bind_eq_some_iff.1 hstep
    refine ⟨c, rfl, ?_⟩
    split at hstep
    · rename_i id rest hcleaning
      split at hstep
      · obtain ⟨sub, hsub, rfl⟩ := Option.map_eq_some_iff.1 hstep
        obtain ⟨-, sub', hsub', hc, -⟩ := h.cleaning c id rest ⟨connection, hconnection, hcleaning⟩
        obtain rfl := Option.some.inj (hsub'.symm.trans hsub)
        have hend := onlyTouches_endCleanup hc (fun sub₀ hsub₀ => (hmine hsub sub₀ hsub₀).trans hc)
        exact (hend.trans onlyTouches_mapConnection).trans onlyTouches_mapConnection
      · cases hstep
        exact onlyTouches_mapConnection
    · cases hstep
  | unsubscribe u id =>
    obtain ⟨sub, hsub, hstep⟩ := Option.bind_eq_some_iff.1 hstep
    refine ⟨sub.connectionId, hmap hsub, ?_⟩
    split at hstep
    · cases hstep
      have hbegin := onlyTouches_beginCleanup rfl (hmine hsub)
      exact ⟨hbegin.connections, hbegin.subscriptions⟩
    · cases hstep
  | unsubscribed u resolves =>
    obtain ⟨id, hu, hstep⟩ := Option.bind_eq_some_iff.1 hstep
    obtain ⟨sub, hsub, hstep⟩ := Option.bind_eq_some_iff.1 hstep
    refine ⟨sub.connectionId, Option.bind_eq_some_iff.2 ⟨id, hu, hmap hsub⟩, ?_⟩
    simp only at hstep
    split at hstep
    · cases hstep
      have hset : OnlyTouches sub.connectionId s
          { s with unsubscribes := Function.update s.unsubscribes u none } :=
        ⟨fun _ _ => rfl, fun _ _ h _ => h⟩
      exact (hset.trans (onlyTouches_endCleanup rfl (hmine hsub))).trans onlyTouches_mapConnection
    · cases hstep
      exact ⟨fun _ _ => rfl, fun _ _ h _ => h⟩

end Others

/-! ## What is left -/

section Left

variable {C S U : Type} [DecidableEq C] [DecidableEq S] [DecidableEq U] {s : State C S U}
  {events : List (Event C S U)}

theorem connectionOk_run (hrun : Run step Sound ({} : State C S U) events s) : ConnectionOk s :=
  hrun.invariant (fun _ _ _ h hok hstep => h.step hok hstep) connectionOk_initial

/-- **A dropped connection leaves nothing behind**, nor does a subscription whose cleanup was
called, and what happens for a connection removes nothing of another. -/
theorem nothing_left (hrun : Run step Sound ({} : State C S U) events s) :
    (∀ id sub, s.subscriptions id = some sub → s.connections sub.connectionId = none →
      sub.Bare ∧ ¬ s.Handles sub.connectionId id) ∧
    (∀ id sub, s.subscriptions id = some sub → sub.phase.attached = true →
      ¬ s.Registered sub.connectionId id → sub.Bare ∧ ¬ s.Handles sub.connectionId id) ∧
    ∀ event t, step s event = some t → ∀ id sub, s.subscriptions id = some sub →
      event.connectionId s ≠ some sub.connectionId →
        t.subscriptions id = some sub ∧
          t.connections sub.connectionId = s.connections sub.connectionId := by
  have hok := connectionOk_run hrun
  refine ⟨fun id sub hsub hnone => ?_, fun id sub hsub => (hok.subscription id sub hsub).released,
    fun event t hstep id sub hsub hother => ?_⟩
  · have hno {P : Connection S → Prop} :
        ¬ ∃ connection ∈ s.connections sub.connectionId, P connection := by
      rintro ⟨connection, hconnection, -⟩
      rw [hnone] at hconnection
      cases hconnection
    have hsubOk := hok.subscription id sub hsub
    by_cases hphase : sub.phase.attached = true
    · exact hsubOk.released hphase hno
    · exact ⟨(hsubOk.fresh (Bool.of_not_eq_true hphase)).1, hno⟩
  · obtain ⟨c, hc, htouches⟩ := onlyTouches_step hok hstep
    have hne : sub.connectionId ≠ c := by
      rintro rfl
      exact hother hc
    exact ⟨htouches.subscriptions id sub hsub hne, htouches.connections _ hne⟩

/-- Two connections publish a vote each, and the first one is dropped. -/
def twoVotes : List (Event Bool Bool Unit) :=
  [.call false false (.publish .publishVote), .call true true (.publish .publishVote),
    .attach true false, .attach false false, .workSettles false true, .disconnect false [false],
    .visit false, .visited false true, .visit false]

theorem nothing_left_twoVotes : ∃ s, Run step anyStep ({} : State Bool Bool Unit) twoVotes s ∧
    s.connections false = none ∧ (∃ sub, s.subscriptions false = some sub ∧ sub.Bare) ∧
      ∃ sub, s.subscriptions true = some sub ∧ sub.listeners = true := by
  obtain ⟨s, hrun, hconn, ⟨sub, hsub, hdropped⟩, other, hother, hlisteners⟩ : ∃ s,
      Run step Sound ({} : State Bool Bool Unit) twoVotes s ∧ s.connections false = none ∧
        (∃ sub, s.subscriptions false = some sub ∧ sub.connectionId = false) ∧
          ∃ sub, s.subscriptions true = some sub ∧ sub.listeners = true := by
    refine ⟨_, .cons trivial rfl <| .cons trivial rfl <| .cons ?_ rfl <| .cons ?_ rfl <|
      .cons trivial rfl <| .cons trivial rfl <| .cons ?_ rfl <| .cons rfl rfl <|
      .cons ?_ rfl (.nil _), rfl, ⟨_, rfl, rfl⟩, _, rfl, rfl⟩
    · rintro sub hsub
      cases hsub
      exact ⟨_, rfl, rfl⟩
    · rintro sub hsub
      cases hsub
      exact ⟨_, rfl, rfl⟩
    · rintro connection hconnection rest hrest id hid sub hsub
      cases hconnection
      cases hrest
      cases hid
      cases hsub
      simp [Subscription.attach, Updating.settle, Method.isUpdate]
    · rintro connection hconnection rest hrest id hid
      cases hconnection
      cases hrest
      cases hid
  exact ⟨s, hrun.mono fun _ _ _ => trivial, hconn,
    ⟨sub, hsub, ((nothing_left hrun).1 false sub hsub (hdropped ▸ hconn)).1⟩, other, hother,
      hlisteners⟩

/-- The connection is dropped before the call has created its publication. -/
def lateVote : List (Event Unit Unit Unit) :=
  [.call () () (.publish .publishVote), .disconnect () [], .visit (), .attach () false]

theorem not_nothing_left : ∃ s, Run step anyStep ({} : State Unit Unit Unit) lateVote s ∧
    s.connections () = none ∧ ∃ sub, s.subscriptions () = some sub ∧ sub.phase = .settled ∧
      sub.listeners = true ∧ sub.publishing = true :=
  ⟨_, .cons trivial rfl <| .cons trivial rfl <| .cons trivial rfl <| .cons trivial rfl (.nil _), rfl,
    _, rfl, rfl, rfl, rfl⟩

end Left

end Rpc
end Pkc

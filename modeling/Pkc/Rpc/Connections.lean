import Pkc.Library.Runs
import Pkc.Library.Tasks

/-!
# Connections of the RPC server

A client of the RPC server starts communities, subscribes to updates and publishes over its
connection.  Each such call attaches listeners and stores a cleanup function under the connection;
`unsubscribe` calls the one of a subscription, and the handler of the disconnection calls them all,
one after the other, before it deletes the connection's maps.

* `Subscription` is what a call has on the server: its listeners, four to seven of them and all
  attached and removed together, its record in `publishing` and its updating instance.  What the
  shared updating instance of a comment does for its community is left out.
* `step` is what a call, an unsubscribe or the handler of a disconnection does up to its next
  `await`.
* `ConnectionOk` is the invariant: what has something left has its cleanup stored, and the handler
  of the disconnection still comes to it.
* `Subscription.Le` says that a call went on without anything more to clean up.
-/

set_option autoImplicit false

namespace Pkc
namespace Rpc

open Runs Tasks

/-! ## The state -/

inductive PublishMethod
  | publishComment
  | publishVote
  | publishCommunityEdit
  | publishCommentEdit
  | publishCommentModeration
deriving DecidableEq

inductive Method
  | startCommunity
  | communityUpdateSubscribe
  | commentUpdateSubscribe
  | publish (method : PublishMethod)
deriving DecidableEq

/-- How far a call is. -/
inductive Phase
  /-- It awaits the PKC instance, or what it is to create; nothing is attached. -/
  | preparing
  /-- `startCommunity`, which stores its settings handler first, awaits its community. -/
  | awaitingCommunity
  /-- It has thrown before it attached anything. -/
  | refused
  /-- It awaits `start()`, `update()` or `publish()`. -/
  | working
  /-- These have thrown, and it awaits its own cleanup. -/
  | cleaning
  | settled
deriving DecidableEq

/-- Its listeners have been attached. -/
def Phase.attached : Phase → Bool
  | .preparing | .awaitingCommunity | .refused => false
  | .working | .cleaning | .settled => true

/-- Whether the instance of an update subscription is attached to a shared updating one. -/
inductive Updating
  | none
  /-- `update()` is awaited. -/
  | pending
  | attached
deriving DecidableEq

/-- What is left of a call. -/
structure Subscription (C : Type) where
  connectionId : C
  method : Method
  phase : Phase := .preparing
  listeners : Bool := false
  /-- Its record in `publishing`. -/
  publishing : Bool := false
  updating : Updating := .none
deriving DecidableEq

/-- The handler of the closed connection. -/
inductive Disconnection (S : Type)
  | connected
  /-- The loop over the cleanups is yet to come to these. -/
  | looping (rest : List S)
  | cleaning (current : S) (rest : List S)
  /-- A cleanup has thrown. -/
  | failed
deriving DecidableEq

/-- The maps of a connection. -/
structure Connection (S : Type) where
  subscriptionCleanups : List S := []
  onSettingsChange : List S := []
  disconnection : Disconnection S := .connected

structure State (C S U : Type) where
  /-- The maps are deleted when the connection was dropped and cleaned up. -/
  connections : C → Option (Connection S) := fun _ => some {}
  subscriptions : S → Option (Subscription C) := fun _ => none
  unsubscribes : U → Option S := fun _ => none

inductive Event (C S U : Type)
  | call (id : S) (c : C) (method : Method)
  | storeSettingsHandler (id : S)
  /-- What the call awaits is rejected before it attaches anything. -/
  | refuse (id : S)
  /-- The call attaches its listeners; whether its community runs on the server already. -/
  | attach (id : S) (isStarted : Bool)
  | workSettles (id : S) (resolves : Bool)
  | cleaned (id : S) (resolves : Bool)
  /-- The shared updating instance of a subscription is stopped. -/
  | strand (id : S)
  | recovered (id : S) (resolves : Bool)
  /-- The connection is dropped; its cleanups are enumerated. -/
  | disconnect (c : C) (order : List S)
  | visit (c : C)
  | visited (c : C) (resolves : Bool)
  | unsubscribe (u : U) (id : S)
  | unsubscribed (u : U) (resolves : Bool)

/-! ## What the calls do -/

def Method.isUpdate : Method → Bool
  | .communityUpdateSubscribe | .commentUpdateSubscribe => true
  | _ => false

def Method.isPublish : Method → Bool
  | .publish _ => true
  | _ => false

/-- A call about a community that runs already returns when it has attached its listeners. -/
def Method.joinsStarted : Method → Bool
  | .startCommunity | .communityUpdateSubscribe => true
  | _ => false

/-- `stop()` of an instance whose `update()` is pending does not keep it from attaching. -/
def Updating.stop : Updating → Updating
  | .attached => .none
  | updating => updating

def Updating.settle (resolves : Bool) : Updating → Updating
  | .pending => if resolves then .attached else .none
  | updating => updating

/-- The settings handler is deleted before the cleanup awaits anything. -/
def Method.forgetsSettingsFirst : Method → Bool
  | .startCommunity | .communityUpdateSubscribe => true
  | _ => false

def Method.forgetsSettingsLast : Method → Bool
  | .commentUpdateSubscribe | .publish .publishComment => true
  | _ => false

section Subscriptions

variable {C : Type}

/-- The cleanup up to the `stop()` it awaits. -/
def Subscription.beginCleanup (sub : Subscription C) : Subscription C :=
  match sub.method with
  | .startCommunity => { sub with listeners := false }
  | .communityUpdateSubscribe | .commentUpdateSubscribe =>
    { sub with listeners := false, updating := sub.updating.stop }
  | .publish .publishComment | .publish .publishCommentModeration => { sub with listeners := false }
  | .publish _ => { sub with publishing := false }

/-- The rest of it. -/
def Subscription.endCleanup (sub : Subscription C) : Subscription C :=
  match sub.method with
  | .startCommunity | .communityUpdateSubscribe | .commentUpdateSubscribe => sub
  | .publish .publishComment | .publish .publishCommentModeration =>
    { sub with publishing := false }
  | .publish _ => { sub with listeners := false }

def Subscription.attach (sub : Subscription C) (isStarted : Bool) : Subscription C :=
  let joins := isStarted && sub.method.joinsStarted
  { sub with
    phase := if joins then .settled else .working
    listeners := true
    publishing := sub.method.isPublish
    updating := if sub.method.isUpdate && !joins then .pending else .none }

/-- It can attach its listeners. -/
def Subscription.Ready (sub : Subscription C) : Prop :=
  if sub.method = .startCommunity then sub.phase = .awaitingCommunity else sub.phase = .preparing

instance (sub : Subscription C) : Decidable sub.Ready := by
  unfold Subscription.Ready
  infer_instance

end Subscriptions

/-! ## The step -/

section Step

variable {C S U : Type} [DecidableEq C] [DecidableEq S] [DecidableEq U]

def State.setSubscription (s : State C S U) (id : S) (sub : Subscription C) : State C S U :=
  { s with subscriptions := Function.update s.subscriptions id (some sub) }

def State.mapConnection (s : State C S U) (c : C) (f : Connection S → Connection S) :
    State C S U :=
  { s with connections := Function.update s.connections c ((s.connections c).map f) }

/-- The maps of the connection are deleted. -/
def State.deleteMaps (s : State C S U) (c : C) : State C S U :=
  { s with connections := Function.update s.connections c none }

def State.storeSettings (s : State C S U) (c : C) (id : S) : State C S U :=
  s.mapConnection c fun connection =>
    { connection with onSettingsChange := id :: connection.onSettingsChange }

def State.storeCleanup (s : State C S U) (c : C) (id : S) : State C S U :=
  s.mapConnection c fun connection =>
    { connection with subscriptionCleanups := id :: connection.subscriptionCleanups }

def State.forgetSettings (s : State C S U) (c : C) (id : S) : State C S U :=
  s.mapConnection c fun connection =>
    { connection with onSettingsChange := connection.onSettingsChange.filter (· ≠ id) }

/-- `delete subscriptionCleanups[subscriptionId]` -/
def State.forgetCleanup (s : State C S U) (c : C) (id : S) : State C S U :=
  s.mapConnection c fun connection =>
    { connection with subscriptionCleanups := connection.subscriptionCleanups.filter (· ≠ id) }

def State.setDisconnection (s : State C S U) (c : C) (disconnection : Disconnection S) :
    State C S U :=
  s.mapConnection c fun connection => { connection with disconnection := disconnection }

def State.Registered (s : State C S U) (c : C) (id : S) : Prop :=
  ∃ connection ∈ s.connections c, id ∈ connection.subscriptionCleanups

instance (s : State C S U) (c : C) (id : S) : Decidable (s.Registered c id) :=
  decidable_of_iff ((s.connections c).any fun connection =>
    id ∈ connection.subscriptionCleanups) (by
      cases h : s.connections c <;> simp [State.Registered, h])

/-- The listeners are attached, and the cleanup and the settings handler are stored. -/
def State.attach (s : State C S U) (id : S) (sub : Subscription C) : State C S U :=
  let s := (s.setSubscription id sub).storeCleanup sub.connectionId id
  if sub.method.isUpdate then s.storeSettings sub.connectionId id else s

def State.beginCleanup (s : State C S U) (id : S) (sub : Subscription C) : State C S U :=
  let s := s.setSubscription id sub.beginCleanup
  if sub.method.forgetsSettingsFirst then s.forgetSettings sub.connectionId id else s

def State.endCleanup (s : State C S U) (id : S) (sub : Subscription C) : State C S U :=
  let s := s.setSubscription id sub.endCleanup
  if sub.method.forgetsSettingsLast then s.forgetSettings sub.connectionId id else s

/-- What is enumerated and still stored. -/
def Connection.toVisit (connection : Connection S) (rest : List S) : List S :=
  rest.dropWhile fun id => id ∉ connection.subscriptionCleanups

/-- The loop of the handler of a disconnection goes to the next cleanup, or deletes the maps. -/
def State.visit (s : State C S U) (c : C) (connection : Connection S) (rest : List S) :
    Option (State C S U) :=
  match connection.toVisit rest with
  | [] => some (s.deleteMaps c)
  | id :: rest =>
    (s.subscriptions id).map fun sub =>
      (s.beginCleanup id sub).setDisconnection c (.cleaning id rest)

def step (s : State C S U) : Event C S U → Option (State C S U)
  | .call id c method =>
    match s.subscriptions id, s.connections c with
    | none, some { disconnection := .connected, .. } =>
      some (s.setSubscription id { connectionId := c, method := method })
    | _, _ => none
  | .storeSettingsHandler id =>
    (s.subscriptions id).bind fun sub =>
      if sub.method = .startCommunity ∧ sub.phase = .preparing then
        -- without the map of the connection it throws
        if s.connections sub.connectionId = none then
          some (s.setSubscription id { sub with phase := .refused })
        else
          some ((s.setSubscription id { sub with phase := .awaitingCommunity }).storeSettings
            sub.connectionId id)
      else none
  | .refuse id =>
    (s.subscriptions id).bind fun sub =>
      if sub.phase = .preparing ∨ sub.phase = .awaitingCommunity then
        some (s.setSubscription id { sub with phase := .refused })
      else none
  | .attach id isStarted =>
    (s.subscriptions id).bind fun sub =>
      if sub.Ready then
        -- without the map it throws when it stores its cleanup, and what it has attached stays
        if s.connections sub.connectionId = none then
          some (s.setSubscription id
            { sub.attach isStarted with phase := .settled, updating := .none })
        else some (s.attach id (sub.attach isStarted))
      else none
  | .workSettles id resolves =>
    (s.subscriptions id).bind fun sub =>
      if sub.phase = .working then
        let sub := { sub with updating := sub.updating.settle resolves }
        if resolves = false ∧ s.Registered sub.connectionId id then
          some (s.beginCleanup id { sub with phase := .cleaning })
        else some (s.setSubscription id { sub with phase := .settled })
      else none
  | .cleaned id resolves =>
    (s.subscriptions id).bind fun sub =>
      if sub.phase = .cleaning then
        let sub := { sub with phase := .settled }
        if resolves then some (s.endCleanup id sub) else some (s.setSubscription id sub)
      else none
  | .strand id =>
    (s.subscriptions id).bind fun sub =>
      if sub.updating = .attached then
        -- `recoverIfStrandedListener`
        let recovers := sub.method = .communityUpdateSubscribe ∧ sub.listeners = true ∧
          s.Registered sub.connectionId id
        some (s.setSubscription id { sub with updating := if recovers then .pending else .none })
      else none
  | .recovered id resolves =>
    (s.subscriptions id).bind fun sub =>
      if sub.phase ≠ .working ∧ sub.updating = .pending then
        some (s.setSubscription id { sub with updating := sub.updating.settle resolves })
      else none
  | .disconnect c order =>
    (s.connections c).bind fun connection =>
      if connection.disconnection = .connected ∧ order.Perm connection.subscriptionCleanups then
        some (s.setDisconnection c (.looping order))
      else none
  | .visit c =>
    (s.connections c).bind fun connection =>
      match connection.disconnection with
      | .looping rest => s.visit c connection rest
      | _ => none
  | .visited c resolves =>
    (s.connections c).bind fun connection =>
      match connection.disconnection with
      | .cleaning id rest =>
        if resolves then
          (s.subscriptions id).map fun sub =>
            ((s.endCleanup id sub).forgetCleanup c id).setDisconnection c (.looping rest)
        else some (s.setDisconnection c .failed)
      | _ => none
  | .unsubscribe u id =>
    -- with no cleanup stored it returns at once
    (s.subscriptions id).bind fun sub =>
      if s.unsubscribes u = none ∧ s.Registered sub.connectionId id then
        let s := s.beginCleanup id sub
        some { s with unsubscribes := Function.update s.unsubscribes u (some id) }
      else none
  | .unsubscribed u resolves =>
    (s.unsubscribes u).bind fun id =>
      (s.subscriptions id).bind fun sub =>
        let s := { s with unsubscribes := Function.update s.unsubscribes u none }
        if resolves then some ((s.endCleanup id sub).forgetCleanup sub.connectionId id) else some s

end Step

/-! ## The invariant -/

section Invariant

variable {C S U : Type} [DecidableEq S]

/-- Nothing of the call is left but its settings handler. -/
structure Subscription.Bare (sub : Subscription C) : Prop where
  listeners : sub.listeners = false
  publishing : sub.publishing = false
  updating : sub.updating = .none

/-- A settings handler is stored. -/
def State.Handles (s : State C S U) (c : C) (id : S) : Prop :=
  ∃ connection ∈ s.connections c, id ∈ connection.onSettingsChange

/-- Where the handler of the disconnection is. -/
def State.Disconnecting (s : State C S U) (c : C) (disconnection : Disconnection S) : Prop :=
  ∃ connection ∈ s.connections c, connection.disconnection = disconnection

/-- A cleanup has come to its `stop()`. -/
structure State.Begun (s : State C S U) (id : S) (sub : Subscription C) : Prop where
  attached : sub.phase.attached = true
  bare : sub.endCleanup.Bare
  settings : sub.method.forgetsSettingsLast = false → ¬ s.Handles sub.connectionId id

/-- A call only has what its method gives it. -/
structure KindOk (s : State C S U) (id : S) (sub : Subscription C) : Prop where
  settings : s.Handles sub.connectionId id → sub.method.isPublish = false
  publishing : sub.publishing = true → sub.method.isPublish = true
  updating : sub.updating ≠ .none → sub.method.isUpdate = true

/-- What holds of one call. -/
structure SubscriptionOk (s : State C S U) (id : S) (sub : Subscription C) : Prop
    extends KindOk s id sub where
  fresh : sub.phase.attached = false → sub.Bare ∧ ¬ s.Registered sub.connectionId id
  released : sub.phase.attached = true → ¬ s.Registered sub.connectionId id →
    sub.Bare ∧ ¬ s.Handles sub.connectionId id
  cleaning : sub.phase = .cleaning → s.Begun id sub

/-- The invariant. -/
structure ConnectionOk (s : State C S U) : Prop where
  subscription : ∀ id sub, s.subscriptions id = some sub → SubscriptionOk s id sub
  registered : ∀ c id, s.Registered c id →
    ∃ sub, s.subscriptions id = some sub ∧ sub.connectionId = c
  handles : ∀ c id, s.Handles c id → ∃ sub, s.subscriptions id = some sub ∧ sub.connectionId = c
  /-- The handler of the disconnection comes to every cleanup. -/
  looping : ∀ c rest, s.Disconnecting c (.looping rest) → ∀ id, s.Registered c id → id ∈ rest
  cleaning : ∀ c current rest, s.Disconnecting c (.cleaning current rest) →
    (∀ id, s.Registered c id → id = current ∨ id ∈ rest) ∧
      ∃ sub, s.subscriptions current = some sub ∧ sub.connectionId = c ∧ s.Begun current sub
  unsubscribing : ∀ u id, s.unsubscribes u = some id →
    ∃ sub, s.subscriptions id = some sub ∧ s.Begun id sub

/-- No call is attached to a dropped connection, and no cleanup meets a pending update. -/
def Sound (s : State C S U) : Event C S U → Prop
  /- The connection of the call was not dropped. -/
  | .attach id _ => ∀ sub ∈ s.subscriptions id, s.Disconnecting sub.connectionId .connected
  /- No cleanup begins while an update of its instance is pending, or is rejected. -/
  | .unsubscribe _ id => ∀ sub ∈ s.subscriptions id, sub.updating ≠ .pending
  | .visit c => ∀ connection ∈ s.connections c, ∀ rest,
      connection.disconnection = .looping rest → ∀ id ∈ (connection.toVisit rest).head?,
        ∀ sub ∈ s.subscriptions id, sub.updating ≠ .pending
  | .visited _ resolves => resolves = true
  | _ => True

end Invariant

/-! ## What the operations on the maps do -/

section Maps

variable {C S U : Type} {s : State C S U} {c c' : C} {id id' : S}

section

variable [DecidableEq S]

@[simp] theorem registered_setSubscription {sub : Subscription C} :
    (s.setSubscription id sub).Registered c' id' ↔ s.Registered c' id' := Iff.rfl

@[simp] theorem handles_setSubscription {sub : Subscription C} :
    (s.setSubscription id sub).Handles c' id' ↔ s.Handles c' id' := Iff.rfl

@[simp] theorem disconnecting_setSubscription {sub : Subscription C} {d : Disconnection S} :
    (s.setSubscription id sub).Disconnecting c' d ↔ s.Disconnecting c' d := Iff.rfl

end

variable [DecidableEq C]

theorem exists_mapConnection {P : Connection S → Prop} {f : Connection S → Connection S} :
    (∃ connection ∈ (s.mapConnection c f).connections c', P connection) ↔
      ∃ connection ∈ s.connections c', P (if c' = c then f connection else connection) := by
  by_cases heq : c' = c
  · subst heq
    simp [State.mapConnection]
  · simp [State.mapConnection, heq]

@[simp] theorem registered_setDisconnection {d : Disconnection S} :
    (s.setDisconnection c d).Registered c' id' ↔ s.Registered c' id' := by
  rw [State.Registered, State.setDisconnection, exists_mapConnection, State.Registered]
  simp only [apply_ite Connection.subscriptionCleanups, ite_self]

@[simp] theorem handles_setDisconnection {d : Disconnection S} :
    (s.setDisconnection c d).Handles c' id' ↔ s.Handles c' id' := by
  rw [State.Handles, State.setDisconnection, exists_mapConnection, State.Handles]
  simp only [apply_ite Connection.onSettingsChange, ite_self]

theorem disconnecting_setDisconnection {d d' : Disconnection S}
    (h : (s.setDisconnection c d).Disconnecting c' d') :
    c' = c ∧ d' = d ∨ c' ≠ c ∧ s.Disconnecting c' d' := by
  obtain ⟨connection, hconnection, hd⟩ := exists_mapConnection.1 h
  by_cases heq : c' = c
  · rw [if_pos heq] at hd
    exact .inl ⟨heq, hd.symm⟩
  · rw [if_neg heq] at hd
    exact .inr ⟨heq, connection, hconnection, hd⟩

@[simp] theorem registered_storeCleanup :
    (s.storeCleanup c id).Registered c' id' ↔
      s.Registered c' id' ∨ s.connections c ≠ none ∧ c' = c ∧ id' = id := by
  rw [State.Registered, State.storeCleanup, exists_mapConnection, State.Registered]
  by_cases heq : c' = c
  · subst heq
    cases h : s.connections c' <;> simp [or_comm]
  · simp [heq]

@[simp] theorem handles_storeCleanup :
    (s.storeCleanup c id).Handles c' id' ↔ s.Handles c' id' := by
  rw [State.Handles, State.storeCleanup, exists_mapConnection, State.Handles]
  simp only [apply_ite Connection.onSettingsChange, ite_self]

@[simp] theorem disconnecting_storeCleanup {d : Disconnection S} :
    (s.storeCleanup c id).Disconnecting c' d ↔ s.Disconnecting c' d := by
  rw [State.Disconnecting, State.storeCleanup, exists_mapConnection, State.Disconnecting]
  simp only [apply_ite Connection.disconnection, ite_self]

@[simp] theorem registered_storeSettings :
    (s.storeSettings c id).Registered c' id' ↔ s.Registered c' id' := by
  rw [State.Registered, State.storeSettings, exists_mapConnection, State.Registered]
  simp only [apply_ite Connection.subscriptionCleanups, ite_self]

@[simp] theorem handles_storeSettings :
    (s.storeSettings c id).Handles c' id' ↔
      s.Handles c' id' ∨ s.connections c ≠ none ∧ c' = c ∧ id' = id := by
  rw [State.Handles, State.storeSettings, exists_mapConnection, State.Handles]
  by_cases heq : c' = c
  · subst heq
    cases h : s.connections c' <;> simp [or_comm]
  · simp [heq]

@[simp] theorem disconnecting_storeSettings {d : Disconnection S} :
    (s.storeSettings c id).Disconnecting c' d ↔ s.Disconnecting c' d := by
  rw [State.Disconnecting, State.storeSettings, exists_mapConnection, State.Disconnecting]
  simp only [apply_ite Connection.disconnection, ite_self]

variable [DecidableEq S]

@[simp] theorem registered_forgetSettings :
    (s.forgetSettings c id).Registered c' id' ↔ s.Registered c' id' := by
  rw [State.Registered, State.forgetSettings, exists_mapConnection, State.Registered]
  simp only [apply_ite Connection.subscriptionCleanups, ite_self]

@[simp] theorem handles_forgetSettings :
    (s.forgetSettings c id).Handles c' id' ↔ s.Handles c' id' ∧ ¬ (c' = c ∧ id' = id) := by
  rw [State.Handles, State.forgetSettings, exists_mapConnection, State.Handles]
  by_cases heq : c' = c <;> simp [heq, ← and_assoc, exists_and_right]

@[simp] theorem disconnecting_forgetSettings {d : Disconnection S} :
    (s.forgetSettings c id).Disconnecting c' d ↔ s.Disconnecting c' d := by
  rw [State.Disconnecting, State.forgetSettings, exists_mapConnection, State.Disconnecting]
  simp only [apply_ite Connection.disconnection, ite_self]

@[simp] theorem registered_forgetCleanup :
    (s.forgetCleanup c id).Registered c' id' ↔ s.Registered c' id' ∧ ¬ (c' = c ∧ id' = id) := by
  rw [State.Registered, State.forgetCleanup, exists_mapConnection, State.Registered]
  by_cases heq : c' = c <;> simp [heq, ← and_assoc, exists_and_right]

@[simp] theorem handles_forgetCleanup :
    (s.forgetCleanup c id).Handles c' id' ↔ s.Handles c' id' := by
  rw [State.Handles, State.forgetCleanup, exists_mapConnection, State.Handles]
  simp only [apply_ite Connection.onSettingsChange, ite_self]

@[simp] theorem disconnecting_forgetCleanup {d : Disconnection S} :
    (s.forgetCleanup c id).Disconnecting c' d ↔ s.Disconnecting c' d := by
  rw [State.Disconnecting, State.forgetCleanup, exists_mapConnection, State.Disconnecting]
  simp only [apply_ite Connection.disconnection, ite_self]

end Maps

/-! ## What a call has left -/

section Left

variable {C : Type} {sub sub' : Subscription C}

/-- The call went on, and has no more left than before. -/
structure Subscription.Le (sub' sub : Subscription C) : Prop where
  connectionId : sub'.connectionId = sub.connectionId
  method : sub'.method = sub.method
  attached : sub'.phase.attached = sub.phase.attached
  listeners : sub.listeners = false → sub'.listeners = false
  publishing : sub.publishing = false → sub'.publishing = false
  updating : sub.updating = .none → sub'.updating = .none

theorem Subscription.Bare.le (h : sub.Bare) (hle : sub'.Le sub) : sub'.Bare :=
  ⟨hle.listeners h.listeners, hle.publishing h.publishing, hle.updating h.updating⟩

theorem Updating.stop_none {updating : Updating} (h : updating = .none) :
    updating.stop = .none := by
  rw [h]
  rfl

theorem Subscription.le_beginCleanup (sub : Subscription C) : sub.beginCleanup.Le sub := by
  rw [Subscription.beginCleanup]
  split
  · exact ⟨rfl, rfl, rfl, fun _ => rfl, fun h => h, fun h => h⟩
  · exact ⟨rfl, rfl, rfl, fun _ => rfl, fun h => h, Updating.stop_none⟩
  · exact ⟨rfl, rfl, rfl, fun _ => rfl, fun h => h, Updating.stop_none⟩
  · exact ⟨rfl, rfl, rfl, fun _ => rfl, fun h => h, fun h => h⟩
  · exact ⟨rfl, rfl, rfl, fun _ => rfl, fun h => h, fun h => h⟩
  · exact ⟨rfl, rfl, rfl, fun h => h, fun _ => rfl, fun h => h⟩

theorem Subscription.le_endCleanup (sub : Subscription C) : sub.endCleanup.Le sub := by
  rw [Subscription.endCleanup]
  split
  · exact ⟨rfl, rfl, rfl, fun h => h, fun h => h, fun h => h⟩
  · exact ⟨rfl, rfl, rfl, fun h => h, fun h => h, fun h => h⟩
  · exact ⟨rfl, rfl, rfl, fun h => h, fun h => h, fun h => h⟩
  · exact ⟨rfl, rfl, rfl, fun h => h, fun _ => rfl, fun h => h⟩
  · exact ⟨rfl, rfl, rfl, fun h => h, fun _ => rfl, fun h => h⟩
  · exact ⟨rfl, rfl, rfl, fun _ => rfl, fun h => h, fun h => h⟩

theorem Subscription.Le.endCleanup (hle : sub'.Le sub) : sub'.endCleanup.Le sub.endCleanup := by
  obtain ⟨hconn, hmethod, hattached, hlisteners, hpublishing, hupdating⟩ := hle
  simp only [Subscription.endCleanup, hmethod]
  split <;> constructor <;> first | assumption | rfl | exact fun _ => rfl

theorem Subscription.Le.trans {sub'' : Subscription C} (h : sub''.Le sub') (h' : sub'.Le sub) :
    sub''.Le sub :=
  ⟨h.connectionId.trans h'.connectionId, h.method.trans h'.method, h.attached.trans h'.attached,
    fun hs => h.listeners (h'.listeners hs), fun hs => h.publishing (h'.publishing hs),
    fun hs => h.updating (h'.updating hs)⟩

/-- **A cleanup leaves nothing**, if no update is pending. -/
theorem Subscription.bare_of_cleanup (hpublishing : sub.publishing = true → sub.method.isPublish = true)
    (hupdating : sub.updating ≠ .none → sub.method.isUpdate = true)
    (hpending : sub.updating ≠ .pending) : sub.beginCleanup.endCleanup.Bare := by
  obtain ⟨c, method, phase, listeners, publishing, updating⟩ := sub
  simp only at hpublishing hupdating hpending
  have hstop : updating.stop = .none := by
    cases updating with
    | none => rfl
    | pending => exact absurd rfl hpending
    | attached => rfl
  cases method with
  | startCommunity =>
    have hfalse : publishing = false := by simpa [Method.isPublish] using hpublishing
    have hnone : updating = .none := by simpa [Method.isUpdate] using hupdating
    exact ⟨rfl, hfalse, hnone⟩
  | communityUpdateSubscribe =>
    have hfalse : publishing = false := by simpa [Method.isPublish] using hpublishing
    exact ⟨rfl, hfalse, hstop⟩
  | commentUpdateSubscribe =>
    have hfalse : publishing = false := by simpa [Method.isPublish] using hpublishing
    exact ⟨rfl, hfalse, hstop⟩
  | publish method =>
    have hnone : updating = .none := by simpa [Method.isUpdate] using hupdating
    cases method <;> exact ⟨rfl, rfl, hnone⟩

end Left

end Rpc
end Pkc

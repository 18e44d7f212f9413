import Pkc.Library.Dictionary
import Pkc.Library.Runs
import Pkc.Library.Tasks

/-!
# The started communities of the RPC server

`_startedCommunities` maps an address to the instance that runs under it, or to "pending" while one
is created and started.  The handlers of the clients and the auto-start at boot all change it around
their `await`s, and a table keeps which communities the next boot is to start.

* `step` is what one of them does up to its next `await`.  The address an identifier is found under
  may be any that is in `_startedCommunities` or that a community is stored under.
* A community runs at most once, by its start lock.  A rename of a running community stops it, moves
  its files and starts it again.
* The restart of everything by `setSettings` is left out, and so are an owner's edits over pubsub.
-/

set_option autoImplicit false

namespace Pkc
namespace Rpc
namespace StartedCommunities

open Runs Tasks

/-! ## The state -/

inductive Entry (I : Type)
  | pending
  | community (i : I)
deriving DecidableEq

structure RpcCommunityState where
  wasStarted : Bool := false
  wasExplicitlyStopped : Bool := false
deriving DecidableEq

inductive Operation
  | autoStart
  | start
  | stop
  | edit
  | delete
deriving DecidableEq

/-- `editCommunity` of the community that was found under the address. -/
structure Edit (A I : Type) where
  address : A
  community : I
  /-- The community is the started one, and was not created for the edit. -/
  isStarted : Bool

/-- The handlers in flight, by what they await. -/
inductive Handler (A I : Type)
  /-- The boot has read that the row is to be started. -/
  | readRow (a : A)
  /-- An auto-start waits for its turn, or for its next attempt. -/
  | queued (a : A)
  | resubscribing
  | starting (a : A)
  | polling (operation : Operation) (a : A)
  | creating (operation : Operation) (a : A)
  | awaitingStart (operation : Operation) (a : A) (i : I)
  | stopping (a : A) (i : I)
  | deleting (a : A) (i : I)
  /-- The community has stopped; its entry and its row are still there. -/
  | removing (deletes : Bool) (a : A) (i : I)
  | editing (edit : Edit A I)
  | editingStored (edit : Edit A I) (newAddress : A)
  /-- The community runs as the second, which stops to be renamed. -/
  | stoppingToRename (edit : Edit A I) (j : I) (newAddress : A)
  | moving (edit : Edit A I) (j : I) (newAddress : A)
  | restarting (edit : Edit A I) (j : I)
  /-- The files could not be moved, and the community is started as it was. -/
  | restoring (j : I)

structure Config (C I : Type) where
  identity : I → C

structure State (A C I T : Type) where
  startedCommunities : Dictionary A (Entry I) := []
  communityStates : A → Option RpcCommunityState
  /-- The community whose database has the address as its name. -/
  files : A → Option C
  /-- The instance that has the start lock. -/
  started : C → Option I := fun _ => none
  /-- `community.address`, if the instance has been created. -/
  address : I → Option A := fun _ => none
  /-- `_addressChangeListeners` -/
  followed : I → Bool := fun _ => false
  handlers : T → Option (Handler A I) := fun _ => none
  /-- The operation of a client that completed last. -/
  last : C → Option Operation := fun _ => none

inductive Event (A I T : Type)
  | boot (t : T) (a : A)
  | filter (t : T)
  | internalStartCommunity (t : T)
  | startedCommunitySubscribe (t : T) (a : A)
  | startCommunity (t : T) (a : A)
  | checkStarted (t : T)
  | stopCommunity (t : T) (a : A)
  | editCommunity (t : T) (a : A)
  | deleteCommunity (t : T) (a : A)
  | polled (t : T)
  | created (t : T) (i : I)
  | createRejected (t : T) (retries : Bool)
  | started (t : T)
  | startRejected (t : T) (retries : Bool)
  | stopped (t : T) (resolves : Bool)
  | deleted (t : T) (resolves : Bool)
  | removed (t : T)
  | beginEdit (t : T) (newAddress : Option A)
  | editRejected (t : T)
  | storedEdited (t : T) (resolves : Bool)
  | renameStopped (t : T) (resolves : Bool)
  | moved (t : T) (resolves : Bool)
  | restarted (t : T) (resolves : Bool)

section Step

variable {A C I T : Type} [DecidableEq A] [DecidableEq C] [DecidableEq I] [DecidableEq T]

def State.entry (s : State A C I T) (a : A) : Option (Entry I) :=
  Dictionary.get s.startedCommunities a

def State.setHandler (s : State A C I T) (t : T) (handler : Option (Handler A I)) :
    State A C I T :=
  { s with handlers := Function.update s.handlers t handler }

def State.setEntry (s : State A C I T) (a : A) (entry : Entry I) : State A C I T :=
  { s with startedCommunities := Dictionary.set s.startedCommunities a entry }

def State.deleteEntry (s : State A C I T) (a : A) : State A C I T :=
  { s with startedCommunities := Dictionary.delete s.startedCommunities a }

def State.setStarted (s : State A C I T) (c : C) (i : Option I) : State A C I T :=
  { s with started := Function.update s.started c i }

def State.setAddress (s : State A C I T) (i : I) (a : Option A) : State A C I T :=
  { s with address := Function.update s.address i a }

def State.complete (s : State A C I T) (c : C) (operation : Operation) : State A C I T :=
  { s with last := Function.update s.last c (some operation) }

/-- `_updateCommunityState` and `_removeCommunityState` -/
def State.updateCommunityState (s : State A C I T) (a : A) (row : Option RpcCommunityState) :
    State A C I T :=
  { s with communityStates := Function.update s.communityStates a row }

def State.moveCommunityState (s : State A C I T) (oldAddress newAddress : A) : State A C I T :=
  match s.communityStates oldAddress with
  | none => s
  | some row =>
    if oldAddress = newAddress then s
    else (s.updateCommunityState newAddress (some row)).updateCommunityState oldAddress none

/-- `_fileStartedCommunityUnderItsAddress` -/
def State.fileUnderItsAddress (s : State A C I T) (i : I) : State A C I T :=
  match s.address i with
  | none => s
  | some a =>
    if s.entry a = some (.community i) then s
    else
      match Dictionary.findKey s.startedCommunities fun entry => entry = .community i with
      | none => s
      | some filedAddress =>
        ((s.setEntry a (.community i)).deleteEntry filedAddress).moveCommunityState filedAddress a

/-- The database moves to another name. -/
def State.moveFile (s : State A C I T) (oldAddress newAddress : A) : State A C I T :=
  { s with
    files := Function.update (Function.update s.files newAddress (s.files oldAddress)) oldAddress
      none }

/-- The community is stored under the address of the instance, and nothing under the new one. -/
def State.CanMove (s : State A C I T) (config : Config C I) (i : I) (newAddress : A) : Prop :=
  ∃ a, s.address i = some a ∧ s.files a = some (config.identity i) ∧ s.files newAddress = none

/-- `startCommunityImpl` and `_internalStartCommunity` when `start()` has resolved. -/
def State.start (s : State A C I T) (config : Config C I) (operation : Operation) (a : A) (i : I) :
    State A C I T :=
  let s := (s.setStarted (config.identity i) (some i)).setEntry a (.community i)
  let s := s.updateCommunityState a (some ⟨true, false⟩)
  let s := { s with followed := Function.update s.followed i true }
  let s := s.fileUnderItsAddress i
  if operation = .start then s.complete (config.identity i) .start else s

/-- An auto-start may be tried again. -/
def State.failStart (s : State A C I T) (t : T) (operation : Operation) (a : A) (retries : Bool) :
    State A C I T :=
  (s.deleteEntry a).setHandler t
    (if operation = .autoStart ∧ retries = true then some (.queued a) else none)

/-- What `editCommunity` does when `edit()` has resolved. -/
def State.endEdit (s : State A C I T) (config : Config C I) (t : T) (edit : Edit A I) :
    State A C I T :=
  let s := (s.setHandler t none).complete (config.identity edit.community) .edit
  match s.address edit.community with
  | none => s
  | some a =>
    if a = edit.address then s
    else if edit.isStarted then s.fileUnderItsAddress edit.community
    else s.moveCommunityState edit.address a

/-- What the handler does when `stop()` or `delete()` has resolved.  The `update` that is emitted then
is left out: it files a community under the address that it is filed under already. -/
def State.remove (s : State A C I T) (config : Config C I) (t : T) (deletes : Bool)
    (a : A) (i : I) :
    State A C I T :=
  let s := (s.deleteEntry a).setHandler t none
  if deletes then (s.updateCommunityState a none).complete (config.identity i) .delete
  else
    let row := (s.communityStates a).getD {}
    (s.updateCommunityState a (some { row with wasExplicitlyStopped := true })).complete
      (config.identity i) .stop

instance (s : State A C I T) (config : Config C I) (i : I) (newAddress : A) :
    Decidable (s.CanMove config i newAddress) :=
  match h : s.address i with
  | none => .isFalse fun ⟨_, ha, _⟩ => by rw [h] at ha; cases ha
  | some a =>
    decidable_of_iff (s.files a = some (config.identity i) ∧ s.files newAddress = none) (by
      simp [State.CanMove, h])

def step (config : Config C I) (s : State A C I T) : Event A I T → Option (State A C I T)
  | .boot t a =>
    if (s.handlers t).isSome ∨ s.communityStates a ≠ some ⟨true, false⟩ then none
    else some (s.setHandler t (some (.readRow a)))
  | .filter t =>
    match s.handlers t with
    | some (.readRow a) =>
      if s.files a = none then some ((s.updateCommunityState a none).setHandler t none)
      else if (s.entry a).isSome then some (s.setHandler t none)
      else some (s.setHandler t (some (.queued a)))
    | _ => none
  | .internalStartCommunity t =>
    match s.handlers t with
    | some (.queued a) => some ((s.setEntry a .pending).setHandler t (some (.creating .autoStart a)))
    | _ => none
  | .startedCommunitySubscribe t a =>
    if (s.handlers t).isSome ∨ s.entry a = none ∧ s.files a = none then none
    else if s.entry a = none ∧ s.communityStates a ≠ some ⟨true, false⟩ then some s
    else some (s.setHandler t (some .resubscribing))
  | .startCommunity t a =>
    if s.entry a = none ∧ s.files a = none then none
    else
      match s.handlers t with
      | none | some .resubscribing => some (s.setHandler t (some (.starting a)))
      | _ => none
  | .checkStarted t =>
    match s.handlers t with
    | some (.starting a) =>
      if (s.entry a).isSome then some (s.setHandler t (some (.polling .start a)))
      else some ((s.setEntry a .pending).setHandler t (some (.creating .start a)))
    | _ => none
  | .stopCommunity t a =>
    if (s.handlers t).isSome ∨ s.entry a = none then none
    else some (s.setHandler t (some (.polling .stop a)))
  | .editCommunity t a =>
    if (s.handlers t).isSome ∨ s.entry a = none ∧ s.files a = none then none
    else if (s.entry a).isSome then some (s.setHandler t (some (.polling .edit a)))
    else some (s.setHandler t (some (.creating .edit a)))
  | .deleteCommunity t a =>
    if (s.handlers t).isSome ∨ s.entry a = none ∧ s.files a = none then none
    else if (s.entry a).isSome then some (s.setHandler t (some (.polling .delete a)))
    else some (s.setHandler t (some (.creating .delete a)))
  | .polled t =>
    match s.handlers t with
    | some (.polling operation a) =>
      match s.entry a, operation with
      | some .pending, _ => none
      | some (.community i), .stop => some (s.setHandler t (some (.stopping a i)))
      | some (.community i), .delete => some (s.setHandler t (some (.deleting a i)))
      | some (.community i), .edit => some (s.setHandler t (some (.editing ⟨a, i, true⟩)))
      -- the community is reported as started
      | some (.community i), _ => some ((s.setHandler t none).complete (config.identity i) .start)
      | none, .edit => some (s.setHandler t (some (.creating .edit a)))
      -- there is no instance to call
      | none, _ => some (s.setHandler t none)
    | _ => none
  | .created t i =>
    match s.handlers t with
    | some (.creating operation a) =>
      if s.address i ≠ none ∨ s.files a ≠ some (config.identity i) then none
      else
        let s := s.setAddress i (some a)
        match operation with
        | .edit => some (s.setHandler t (some (.editing ⟨a, i, false⟩)))
        | .delete => some (s.setHandler t (some (.deleting a i)))
        | _ => some (s.setHandler t (some (.awaitingStart operation a i)))
    | _ => none
  | .createRejected t retries =>
    match s.handlers t with
    | some (.creating operation a) =>
      match operation with
      | .edit | .delete => some (s.setHandler t none)
      | _ => some (s.failStart t operation a retries)
    | _ => none
  | .started t =>
    match s.handlers t with
    | some (.awaitingStart operation a i) =>
      if (s.started (config.identity i)).isSome then none
      else some ((s.start config operation a i).setHandler t none)
    | _ => none
  | .startRejected t retries =>
    match s.handlers t with
    | some (.awaitingStart operation a _) => some (s.failStart t operation a retries)
    | _ => none
  | .stopped t resolves =>
    match s.handlers t with
    | some (.stopping a i) =>
      let c := config.identity i
      let s := if s.started c = some i then s.setStarted c none else s
      some (s.setHandler t (if resolves then some (.removing false a i) else none))
    | _ => none
  | .deleted t resolves =>
    match s.handlers t with
    | some (.deleting a i) =>
      let c := config.identity i
      let s := s.setStarted c none
      if resolves then
        some ({ s with
          files := fun a => if s.files a = some c then none else s.files a }.setHandler t
            (some (.removing true a i)))
      else some (s.setHandler t none)
    | _ => none
  | .removed t =>
    match s.handlers t with
    | some (.removing deletes a i) =>
      let s := { s with followed := Function.update s.followed i false }
      some (s.remove config t deletes a i)
    | _ => none
  | .beginEdit t newAddress =>
    match s.handlers t with
    | some (.editing edit) =>
      match newAddress, s.started (config.identity edit.community) with
      | none, none => some (s.endEdit config t edit)
      | none, some j => some ((s.setAddress edit.community (s.address j)).endEdit config t edit)
      | some new, none => some (s.setHandler t (some (.editingStored edit new)))
      | some new, some j => some (s.setHandler t (some (.stoppingToRename edit j new)))
    | _ => none
  | .editRejected t =>
    match s.handlers t with
    | some (.editing _) => some (s.setHandler t none)
    | _ => none
  | .storedEdited t resolves =>
    match s.handlers t with
    | some (.editingStored edit new) =>
      if resolves = false then some (s.setHandler t none)
      else
        match s.address edit.community with
        | none => none
        | some a =>
          if s.CanMove config edit.community new then
            some (((s.moveFile a new).setAddress edit.community (some new)).endEdit config t edit)
          else none
    | _ => none
  | .renameStopped t resolves =>
    match s.handlers t with
    | some (.stoppingToRename edit j new) =>
      let c := config.identity j
      let s := if s.started c = some j then s.setStarted c none else s
      some (s.setHandler t (if resolves then some (.moving edit j new) else none))
    | _ => none
  | .moved t resolves =>
    match s.handlers t with
    | some (.moving edit j new) =>
      if resolves = false then some (s.setHandler t (some (.restoring j)))
      else
        match s.address j with
        | none => none
        | some a =>
          if s.CanMove config j new then
            some (((s.moveFile a new).setAddress j (some new)).setHandler t
              (some (.restarting edit j)))
          else none
    | _ => none
  | .restarted t resolves =>
    match s.handlers t with
    | some (.restarting edit j) =>
      if resolves = false then some (s.setHandler t none)
      else if (s.started (config.identity j)).isSome then none
      else
        -- the update of the restarted community files it
        let s := s.setStarted (config.identity j) (some j)
        let s := if s.followed j then s.fileUnderItsAddress j else s
        some ((s.setAddress edit.community (s.address j)).endEdit config t edit)
    | some (.restoring j) =>
      if resolves = false then some (s.setHandler t none)
      else if (s.started (config.identity j)).isSome then none
      else some ((s.setStarted (config.identity j) (some j)).setHandler t none)
    | _ => none

end Step

/-! ## The invariant -/

section Invariant

variable {A C I T : Type} [DecidableEq A]

/-- A start that has set the entry of the address to "pending". -/
def Handler.Starts (handler : Handler A I) (a : A) : Prop :=
  match handler with
  | .creating operation a' => a' = a ∧ operation ≠ .edit ∧ operation ≠ .delete
  | .awaitingStart _ a' _ => a' = a
  | _ => False

def Handler.Mentions (handler : Handler A I) (i : I) : Prop :=
  match handler with
  | .awaitingStart _ _ i' | .stopping _ i' | .deleting _ i' | .removing _ _ i' | .restoring i' => i' = i
  | .editing edit | .editingStored edit _ => edit.community = i
  | .stoppingToRename edit j _ | .moving edit j _ | .restarting edit j => edit.community = i ∨ j = i
  | _ => False

def Handler.Renames (handler : Handler A I) (i : I) : Prop :=
  match handler with
  | .stoppingToRename _ j _ | .moving _ j _ | .restarting _ j | .restoring j => j = i
  | _ => False

/-- A rename that has stopped the community, and not started it again. -/
def Handler.HasStopped (handler : Handler A I) : Prop :=
  match handler with
  | .moving .. | .restarting .. | .restoring _ => True
  | _ => False

/-- A rename that has moved the community. -/
def Handler.HasMoved (handler : Handler A I) : Prop :=
  match handler with
  | .restarting .. => True
  | _ => False

def State.Running (s : State A C I T) (config : Config C I) (i : I) : Prop :=
  s.started (config.identity i) = some i

/-- A handler is about to remove the entry. -/
def State.Removing (s : State A C I T) (a : A) : Prop :=
  ∃ t deletes i, s.handlers t = some (.removing deletes a i)

def State.Renaming (s : State A C I T) (i : I) : Prop :=
  ∃ t handler, s.handlers t = some handler ∧ handler.Renames i

/-- No rename of the community is under way. -/
def State.Settled (s : State A C I T) (config : Config C I) (c : C) : Prop :=
  ∀ j, config.identity j = c → ¬ s.Renaming j

structure Ok (config : Config C I) (s : State A C I T) : Prop where
  identity : ∀ c i, s.started c = some i → config.identity i = c
  pending : ∀ a, s.entry a = some .pending →
    ∃ t handler, s.handlers t = some handler ∧ handler.Starts a
  starts : ∀ t handler a, s.handlers t = some handler → handler.Starts a →
    s.entry a = some .pending
  startsOnce : ∀ t t' handler handler' a, s.handlers t = some handler →
    s.handlers t' = some handler' → handler.Starts a → handler'.Starts a → t = t'
  filed : ∀ a i, s.entry a = some (.community i) →
    s.Running config i ∧ s.address i = some a ∨ s.Removing a ∨ s.Renaming i
  running : ∀ i, s.Running config i →
    ∃ a, s.address i = some a ∧ s.entry a = some (.community i) ∧ s.followed i = true
  once : ∀ a b i, s.entry a = some (.community i) → s.entry b = some (.community i) → a = b
  fresh : ∀ i, s.address i = none → (∀ a, s.entry a ≠ some (.community i)) ∧
    ∀ t handler, s.handlers t = some handler → ¬ handler.Mentions i
  awaiting : ∀ t operation a i, s.handlers t = some (.awaitingStart operation a i) →
    s.address i = some a ∧ (∀ b, s.entry b ≠ some (.community i)) ∧
      ∀ t' handler, t' ≠ t → s.handlers t' = some handler → ¬ handler.Mentions i
  renames : ∀ t handler j, s.handlers t = some handler → handler.Renames j →
    s.followed j = true ∧
      (∀ i, s.started (config.identity j) = some i → i = j ∧ ¬ handler.HasStopped) ∧
        ∃ a, s.entry a = some (.community j) ∧ (¬ handler.HasMoved → s.address j = some a)
  renamesOnce : ∀ t t' handler handler' j j', s.handlers t = some handler →
    s.handlers t' = some handler' → handler.Renames j → handler'.Renames j' →
      config.identity j = config.identity j' → t = t'
  removing : ∀ t a i, s.handlers t = some (.removing true a i) →
    ∀ b, s.files b ≠ some (config.identity i)

/-- What the operations of the clients leave behind. -/
structure RowsOk (config : Config C I) (s : State A C I T) : Prop where
  ended : ∀ c, s.last c = some .stop ∨ s.last c = some .delete →
    s.started c = none ∧ s.Settled config c
  stopped : ∀ c a, s.last c = some .stop → s.files a = some c →
    ∃ row, s.communityStates a = some row ∧ row.wasExplicitlyStopped = true
  deleted : ∀ c a, s.last c = some .delete → s.files a ≠ some c

end Invariant

/-! ## What keeps it -/

section Keeps

variable {A C I T : Type} [DecidableEq A] {config : Config C I} {s : State A C I T} {t : T} {a : A}
  {i j : I} {c : C}

theorem Ok.address_ne_none_of_filed (h : Ok config s) (ha : s.entry a = some (.community i)) :
    s.address i ≠ none := fun hi => (h.fresh i hi).1 a ha

omit [DecidableEq A] in
theorem Handler.Starts.unique {handler : Handler A I} {b : A} (ha : handler.Starts a)
    (hb : handler.Starts b) : a = b := by
  cases handler with
  | creating operation k => exact ha.1.symm.trans hb.1
  | awaitingStart operation k i => exact ha.symm.trans hb
  | _ => cases ha

/-- The handler neither starts nor renames a community, nor is it about to remove one. -/
def Handler.Plain (handler : Handler A I) : Prop :=
  match handler with
  | .creating operation _ => operation = .edit ∨ operation = .delete
  | .awaitingStart .. | .removing .. | .stoppingToRename .. | .moving .. | .restarting ..
  | .restoring _ => False
  | _ => True

omit [DecidableEq A] in
theorem Handler.Plain.not_starts {handler : Handler A I} (h : handler.Plain) :
    ¬ handler.Starts a := by
  cases handler with
  | creating operation a' => exact fun hstarts => h.elim hstarts.2.1 hstarts.2.2
  | awaitingStart => exact h.elim
  | _ => exact id

omit [DecidableEq A] in
theorem Handler.Plain.not_renames {handler : Handler A I} (h : handler.Plain) :
    ¬ handler.Renames i := by
  cases handler with
  | stoppingToRename => exact h.elim
  | moving => exact h.elim
  | restarting => exact h.elim
  | restoring => exact h.elim
  | _ => exact id

section Handlers

variable [DecidableEq T] {new : Option (Handler A I)}

/-- A handler goes on and nothing else changes. -/
structure Goes (config : Config C I) (s : State A C I T) (t : T) (new : Option (Handler A I)) :
    Prop where
  starts : ∀ a, (∃ old, s.handlers t = some old ∧ old.Starts a) ↔
    ∃ handler, new = some handler ∧ handler.Starts a
  renames : ∀ old i, s.handlers t = some old → old.Renames i →
    ∃ handler, new = some handler ∧ handler.Renames i
  removing : ∀ deletes a i, s.handlers t ≠ some (.removing deletes a i)
  mentions : ∀ handler i, new = some handler → handler.Mentions i → s.address i ≠ none ∧
    ∀ t' operation a, t' ≠ t → s.handlers t' ≠ some (.awaitingStart operation a i)
  awaiting : ∀ operation a i, new = some (.awaitingStart operation a i) → s.address i = some a ∧
    (∀ b, s.entry b ≠ some (.community i)) ∧
      ∀ t' handler, t' ≠ t → s.handlers t' = some handler → ¬ handler.Mentions i
  renamed : ∀ handler j, new = some handler → handler.Renames j →
    s.followed j = true ∧
      (∀ i, s.started (config.identity j) = some i → i = j ∧ ¬ handler.HasStopped) ∧
      (∃ a, s.entry a = some (.community j) ∧ (¬ handler.HasMoved → s.address j = some a)) ∧
        ∀ t' other j', t' ≠ t → s.handlers t' = some other → other.Renames j' →
          config.identity j' ≠ config.identity j
  deletes : ∀ a i, new = some (.removing true a i) → ∀ b, s.files b ≠ some (config.identity i)

omit [DecidableEq T] in
/-- What does not start, rename or remove goes on to do none of it. -/
theorem Goes.of_plain (hold : ∀ old, s.handlers t = some old → old.Plain)
    (hnew : ∀ handler, new = some handler → handler.Plain)
    (hmentions : ∀ handler i, new = some handler → handler.Mentions i → s.address i ≠ none ∧
      ∀ t' operation a, t' ≠ t → s.handlers t' ≠ some (.awaitingStart operation a i)) :
    Goes config s t new where
  starts _ := ⟨fun ⟨old, hhandler, hstarts⟩ => absurd hstarts (hold old hhandler).not_starts,
    fun ⟨handler, hhandler, hstarts⟩ => absurd hstarts (hnew handler hhandler).not_starts⟩
  renames old _ hhandler hi := absurd hi (hold old hhandler).not_renames
  removing _ _ _ hhandler := hold _ hhandler
  mentions := hmentions
  awaiting _ _ _ heq := (hnew _ heq).elim
  renamed handler _ heq hj := absurd hj (hnew handler heq).not_renames
  deletes _ _ heq := (hnew _ heq).elim

theorem Ok.setHandler (h : Ok config s) (hgoes : Goes config s t new) :
    Ok config (s.setHandler t new) where
  __ := h
  pending a ha := by
    obtain ⟨t', handler, hhandler, hstarts⟩ := h.pending a ha
    by_cases heq : t' = t
    · subst heq
      obtain ⟨handler', hnew, hstarts⟩ := (hgoes.starts a).1 ⟨handler, hhandler, hstarts⟩
      exact ⟨t', handler', update_eq_some.2 (Or.inl ⟨rfl, hnew⟩), hstarts⟩
    · exact ⟨t', handler, update_eq_some.2 (Or.inr ⟨heq, hhandler⟩), hstarts⟩
  starts t' handler a hhandler hstarts := by
    rcases update_eq_some.1 hhandler with ⟨-, hnew⟩ | ⟨-, hold⟩
    · obtain ⟨old, hold, hstarts⟩ := (hgoes.starts a).2 ⟨handler, hnew, hstarts⟩
      exact h.starts t old a hold hstarts
    · exact h.starts t' handler a hold hstarts
  startsOnce t₁ t₂ handler₁ handler₂ a h₁ h₂ hs₁ hs₂ := by
    have hold : ∀ {t' handler}, (s.setHandler t new).handlers t' = some handler →
        handler.Starts a → ∃ old, s.handlers t' = some old ∧ old.Starts a := by
      intro t' handler hhandler hstarts
      rcases update_eq_some.1 hhandler with ⟨rfl, hnew⟩ | ⟨-, hold⟩
      · exact (hgoes.starts a).2 ⟨handler, hnew, hstarts⟩
      · exact ⟨handler, hold, hstarts⟩
    obtain ⟨old₁, hold₁, hs₁⟩ := hold h₁ hs₁
    obtain ⟨old₂, hold₂, hs₂⟩ := hold h₂ hs₂
    exact h.startsOnce t₁ t₂ old₁ old₂ a hold₁ hold₂ hs₁ hs₂
  filed a i ha := by
    rcases h.filed a i ha with hrunning | ⟨t', deletes, j, hremoving⟩ | ⟨t', handler, hold, hi⟩
    · exact Or.inl hrunning
    · refine Or.inr (Or.inl ⟨t', deletes, j, update_eq_some.2 (Or.inr ⟨?_, hremoving⟩)⟩)
      rintro rfl
      exact hgoes.removing deletes a j hremoving
    · refine Or.inr (Or.inr ?_)
      by_cases heq : t' = t
      · subst heq
        obtain ⟨handler', hnew, hi⟩ := hgoes.renames handler i hold hi
        exact ⟨t', handler', update_eq_some.2 (Or.inl ⟨rfl, hnew⟩), hi⟩
      · exact ⟨t', handler, update_eq_some.2 (Or.inr ⟨heq, hold⟩), hi⟩
  fresh i hi := by
    refine ⟨(h.fresh i hi).1, fun t' handler hhandler hmentions => ?_⟩
    rcases update_eq_some.1 hhandler with ⟨-, hnew⟩ | ⟨-, hold⟩
    · exact (hgoes.mentions handler i hnew hmentions).1 hi
    · exact (h.fresh i hi).2 t' handler hold hmentions
  awaiting t' operation a i hhandler := by
    rcases update_eq_some.1 hhandler with ⟨rfl, hnew⟩ | ⟨hne, hold⟩
    · obtain ⟨ha, hunfiled, hothers⟩ := hgoes.awaiting operation a i hnew
      refine ⟨ha, hunfiled, fun t'' handler hne hhandler => ?_⟩
      rcases update_eq_some.1 hhandler with ⟨heq, -⟩ | ⟨-, hold⟩
      · exact absurd heq hne
      · exact hothers t'' handler hne hold
    · obtain ⟨ha, hunfiled, hothers⟩ := h.awaiting t' operation a i hold
      refine ⟨ha, hunfiled, fun t'' handler hne' hhandler hmentions => ?_⟩
      rcases update_eq_some.1 hhandler with ⟨rfl, hnew⟩ | ⟨-, hother⟩
      · exact (hgoes.mentions handler i hnew hmentions).2 t' operation a hne hold
      · exact hothers t'' handler hne' hother hmentions
  renames t' handler j hhandler hj := by
    rcases update_eq_some.1 hhandler with ⟨-, hnew⟩ | ⟨-, hold⟩
    · obtain ⟨hfollowed, hstopped, hfiled, -⟩ := hgoes.renamed handler j hnew hj
      exact ⟨hfollowed, hstopped, hfiled⟩
    · exact h.renames t' handler j hold hj
  renamesOnce t₁ t₂ handler₁ handler₂ j₁ j₂ h₁ h₂ hj₁ hj₂ heq := by
    rcases update_eq_some.1 h₁ with ⟨rfl, hnew₁⟩ | ⟨hne₁, hold₁⟩ <;>
      rcases update_eq_some.1 h₂ with ⟨heq₂, hnew₂⟩ | ⟨hne₂, hold₂⟩
    · exact heq₂.symm
    · exact absurd heq.symm
        ((hgoes.renamed handler₁ j₁ hnew₁ hj₁).2.2.2 t₂ handler₂ j₂ hne₂ hold₂ hj₂)
    · subst heq₂
      exact absurd heq ((hgoes.renamed handler₂ j₂ hnew₂ hj₂).2.2.2 t₁ handler₁ j₁ hne₁ hold₁ hj₁)
    · exact h.renamesOnce t₁ t₂ handler₁ handler₂ j₁ j₂ hold₁ hold₂ hj₁ hj₂ heq
  removing t' a i hhandler := by
    rcases update_eq_some.1 hhandler with ⟨-, hnew⟩ | ⟨-, hold⟩
    · exact hgoes.deletes a i hnew
    · exact h.removing t' a i hold

end Handlers

theorem entry_setEntry {entry : Entry I} {b : A} :
    (s.setEntry a entry).entry b = if b = a then some entry else s.entry b :=
  Dictionary.get_set

theorem entry_deleteEntry {b : A} :
    (s.deleteEntry a).entry b = if b = a then none else s.entry b :=
  Dictionary.get_delete

section Effects

variable [DecidableEq C] [DecidableEq I]

omit [DecidableEq A] [DecidableEq I] in
theorem started_setStarted {c' : C} {started : Option I} :
    (s.setStarted c started).started c' = if c' = c then started else s.started c' :=
  Function.update_apply ..

omit [DecidableEq C] in
/-- An instance that is not filed has no address that matters. -/
theorem Ok.setAddress {b : A} (h : Ok config s) (hunfiled : ∀ a, s.entry a ≠ some (.community i))
    (hawaiting : ∀ t operation a, s.handlers t ≠ some (.awaitingStart operation a i)) :
    Ok config (s.setAddress i (some b)) := by
  have hother : ∀ {j}, j ≠ i → (s.setAddress i (some b)).address j = s.address j :=
    fun hne => Function.update_of_ne hne _ _
  have hfiled : ∀ {j a}, s.entry a = some (.community j) →
      (s.setAddress i (some b)).address j = s.address j :=
    fun ha => hother fun heq => hunfiled _ (heq ▸ ha)
  exact { h with
    filed := fun a j ha => by
      rw [hfiled ha]
      exact h.filed a j ha
    running := fun j hj => by
      obtain ⟨a, haddress, ha, hfollowed⟩ := h.running j hj
      exact ⟨a, (hfiled ha).trans haddress, ha, hfollowed⟩
    fresh := fun j hj => by
      have hne : j ≠ i := by
        rintro rfl
        cases hj.symm.trans (Function.update_self ..)
      exact h.fresh j ((hother hne).symm.trans hj)
    awaiting := fun t operation a j hj => by
      have hne : j ≠ i := fun heq => hawaiting t operation a (heq ▸ hj)
      rw [hother hne]
      exact h.awaiting t operation a j hj
    renames := fun t handler j hhandler hj => by
      obtain ⟨hfollowed, hstopped, a, ha, haddress⟩ := h.renames t handler j hhandler hj
      refine ⟨hfollowed, hstopped, a, ha, fun hmoved => ?_⟩
      rw [hfiled ha]
      exact haddress hmoved }

omit [DecidableEq I] in
/-- A community stops that is about to be removed, or to be renamed. -/
theorem Ok.stops (h : Ok config s)
    (hends : ∀ i a, s.started c = some i → s.entry a = some (.community i) →
      s.Removing a ∨ s.Renaming i) : Ok config (s.setStarted c none) := by
  have hother : ∀ {i c'}, (s.setStarted c none).started c' = some i →
      c' ≠ c ∧ s.started c' = some i := by
    intro i c' hi
    rw [started_setStarted] at hi
    split at hi
    · cases hi
    · exact ⟨‹_›, hi⟩
  exact { h with
    identity := fun c' i hi => h.identity c' i (hother hi).2
    filed := fun a i ha => by
      rcases h.filed a i ha with ⟨hrunning, haddress⟩ | hends'
      · by_cases heq : config.identity i = c
        · exact Or.inr (hends i a (heq ▸ hrunning) ha)
        · exact Or.inl ⟨(Function.update_of_ne heq _ _).trans hrunning, haddress⟩
      · exact Or.inr hends'
    running := fun i hi => h.running i (hother hi).2
    renames := fun t handler j hhandler hj => by
      obtain ⟨hfollowed, hstopped, hfiled⟩ := h.renames t handler j hhandler hj
      exact ⟨hfollowed, fun i hi => hstopped i (hother hi).2, hfiled⟩ }

omit [DecidableEq C] [DecidableEq I] in
theorem Ok.moveFile (oldAddress newAddress : A) (h : Ok config s) :
    Ok config (s.moveFile oldAddress newAddress) :=
  { h with
    removing := fun t a i hhandler b hb => by
      simp only [State.moveFile, Function.update_apply] at hb
      split at hb
      · cases hb
      · split at hb
        · exact h.removing t a i hhandler oldAddress hb
        · exact h.removing t a i hhandler b hb }

omit [DecidableEq I] in
theorem Ok.deleteFiles (h : Ok config s) : Ok config
    { s with files := fun a => if s.files a = some c then none else s.files a } :=
  { h with
    removing := fun t a i hhandler b hb => by
      dsimp only at hb
      split at hb
      · cases hb
      · exact h.removing t a i hhandler b hb }

omit [DecidableEq C] [DecidableEq I] in
theorem moveCommunityState_eq (oldAddress newAddress : A) : ∃ rows,
    s.moveCommunityState oldAddress newAddress = { s with communityStates := rows } := by
  rw [State.moveCommunityState]
  split
  · exact ⟨_, rfl⟩
  · split
    · exact ⟨_, rfl⟩
    · exact ⟨_, rfl⟩

omit [DecidableEq C] [DecidableEq I] in
theorem Ok.moveCommunityState {oldAddress newAddress : A} (h : Ok config s) :
    Ok config (s.moveCommunityState oldAddress newAddress) := by
  obtain ⟨rows, heq⟩ := moveCommunityState_eq (s := s) oldAddress newAddress
  rw [heq]
  exact { h with }

omit [DecidableEq C] in
/-- What filing an instance does to the entries. -/
theorem fileUnderItsAddress_cases {b : A} (haddress : s.address i = some b) :
    (s.entry b = some (.community i) ∨ ∀ a, s.entry a ≠ some (.community i)) ∧
        s.fileUnderItsAddress i = s ∨
      ∃ a, s.entry a = some (.community i) ∧ a ≠ b ∧ s.fileUnderItsAddress i =
        ((s.setEntry b (.community i)).deleteEntry a).moveCommunityState a b := by
  simp only [State.fileUnderItsAddress, haddress]
  split
  · rename_i hb
    exact Or.inl ⟨Or.inl hb, rfl⟩
  · rename_i hb
    split
    · rename_i hfound
      refine Or.inl ⟨Or.inr fun a ha => ?_, rfl⟩
      simpa using Dictionary.findKey_eq_none hfound ha
    · rename_i a hfound
      obtain ⟨entry, ha, heq⟩ := Dictionary.findKey_eq_some hfound
      obtain rfl := of_decide_eq_true heq
      exact Or.inr ⟨a, ha, fun heq => hb (heq ▸ ha), rfl⟩

omit [DecidableEq C] in
theorem Ok.fileUnderItsAddress {b : A} (h : Ok config s) (haddress : s.address i = some b)
    (hb : s.entry b = none ∨ s.entry b = some (.community i)) (hrenaming : s.Renaming i) :
    Ok config (s.fileUnderItsAddress i) := by
  rcases fileUnderItsAddress_cases haddress with ⟨-, hsame⟩ | ⟨a, ha, hne, hfile⟩
  · rw [hsame]
    exact h
  have hnone : s.entry b = none :=
    hb.resolve_right fun hfiled => hne (h.once a b i ha hfiled)
  rw [hfile]
  clear hfile
  refine Ok.moveCommunityState ?_
  have hentry : ∀ k, ((s.setEntry b (.community i)).deleteEntry a).entry k =
      if k = a then none else if k = b then some (.community i) else s.entry k := by
    intro k
    rw [entry_deleteEntry, entry_setEntry]
  -- an entry of another instance, or a pending one, stays
  have hstays : ∀ {k entry}, s.entry k = some entry → entry ≠ .community i →
      ((s.setEntry b (.community i)).deleteEntry a).entry k = some entry := by
    intro k entry hk hentry'
    have hka : k ≠ a := by
      rintro rfl
      exact hentry' (Option.some.inj (hk.symm.trans ha))
    have hkb : k ≠ b := by
      rintro rfl
      cases hnone.symm.trans hk
    rw [hentry, if_neg hka, if_neg hkb]
    exact hk
  have hwas : ∀ {k entry}, ((s.setEntry b (.community i)).deleteEntry a).entry k = some entry →
      k = b ∧ entry = .community i ∨ s.entry k = some entry ∧ k ≠ a := by
    intro k entry hk
    rw [hentry] at hk
    split at hk
    · cases hk
    · split at hk
      · cases hk
        exact Or.inl ⟨‹_›, rfl⟩
      · exact Or.inr ⟨hk, ‹_›⟩
  have hnew : ((s.setEntry b (.community i)).deleteEntry a).entry b = some (.community i) := by
    rw [hentry, if_neg hne.symm, if_pos rfl]
  exact { h with
    pending := fun k hk => by
      rcases hwas hk with ⟨-, heq⟩ | ⟨hk, -⟩
      · cases heq
      · exact h.pending k hk
    starts := fun t handler k hhandler hstarts =>
      hstays (h.starts t handler k hhandler hstarts) (by simp)
    filed := fun k j hk => by
      rcases hwas hk with ⟨-, heq⟩ | ⟨hk, -⟩
      · cases heq
        exact Or.inr (Or.inr hrenaming)
      · exact h.filed k j hk
    running := fun j hj => by
      obtain ⟨k, hjaddress, hk, hfollowed⟩ := h.running j hj
      refine ⟨k, hjaddress, ?_, hfollowed⟩
      by_cases heq : j = i
      · subst heq
        obtain rfl := Option.some.inj (haddress.symm.trans hjaddress)
        exact hnew
      · exact hstays hk (by simpa using heq)
    once := fun k k' j hk hk' => by
      rcases hwas hk with ⟨hkb, heq⟩ | ⟨hold, hka⟩ <;>
        rcases hwas hk' with ⟨hkb', heq'⟩ | ⟨hold', hka'⟩
      · exact hkb.trans hkb'.symm
      · cases heq
        exact absurd (h.once k' a i hold' ha) hka'
      · cases heq'
        exact absurd (h.once k a i hold ha) hka
      · exact h.once k k' j hold hold'
    fresh := fun j hj => by
      refine ⟨fun k hk => ?_, (h.fresh j hj).2⟩
      rcases hwas hk with ⟨-, heq⟩ | ⟨hk, -⟩
      · cases heq
        cases haddress.symm.trans hj
      · exact (h.fresh j hj).1 k hk
    awaiting := fun t operation k j hhandler => by
      obtain ⟨hjaddress, hunfiled, hothers⟩ := h.awaiting t operation k j hhandler
      refine ⟨hjaddress, fun k' hk' => ?_, hothers⟩
      rcases hwas hk' with ⟨-, heq⟩ | ⟨hk', -⟩
      · cases heq
        exact hunfiled a ha
      · exact hunfiled k' hk'
    renames := fun t handler j hhandler hj => by
      obtain ⟨hfollowed, hstopped, k, hk, hjaddress⟩ := h.renames t handler j hhandler hj
      refine ⟨hfollowed, hstopped, ?_⟩
      by_cases heq : j = i
      · subst heq
        exact ⟨b, hnew, fun _ => haddress⟩
      · exact ⟨k, hstays hk (by simpa using heq), hjaddress⟩ }

section Entries

variable [DecidableEq T]

omit [DecidableEq A] [DecidableEq C] [DecidableEq I] in
theorem handlers_setHandler_none {t' : T} {handler : Handler A I} :
    (s.setHandler t none).handlers t' = some handler ↔ t' ≠ t ∧ s.handlers t' = some handler := by
  rw [State.setHandler]
  refine update_eq_some.trans ⟨?_, Or.inr⟩
  rintro (⟨-, hnone⟩ | hother)
  · cases hnone
  · exact hother

omit [DecidableEq C] [DecidableEq I] in
/-- A start sets the entry to "pending" where there was none. -/
theorem Ok.setPending {operation : Operation} (h : Ok config s) (hnone : s.entry a = none)
    (hold : ∀ old, s.handlers t = some old → old.Plain)
    (hoperation : operation ≠ .edit ∧ operation ≠ .delete) :
    Ok config ((s.setEntry a .pending).setHandler t (some (.creating operation a))) := by
  have hstays : ∀ {k entry}, s.entry k = some entry →
    (s.setEntry a .pending).entry k = some entry := by
    intro k entry hk
    have hne : k ≠ a := by
      rintro rfl
      cases hnone.symm.trans hk
    rw [entry_setEntry, if_neg hne]
    exact hk
  have hwas : ∀ {k i}, (s.setEntry a .pending).entry k = some (.community i) →
      s.entry k = some (.community i) := by
    intro k i hk
    rw [entry_setEntry] at hk
    split at hk
    · cases hk
    · exact hk
  have hpending : (s.setEntry a .pending).entry a = some .pending := by
    rw [entry_setEntry, if_pos rfl]
  have hgoes : ∀ {t' : T} {handler : Handler A I}, s.handlers t' = some handler →
      ¬ handler.Plain → Function.update s.handlers t (some (.creating operation a)) t' =
        some handler := by
    intro t' handler hhandler hplain
    refine update_eq_some.2 (Or.inr ⟨?_, hhandler⟩)
    rintro rfl
    exact hplain (hold handler hhandler)
  exact {
    identity := h.identity
    pending := fun k hk => by
      by_cases heq : k = a
      · subst heq
        exact ⟨t, _, Function.update_self .., rfl, hoperation⟩
      · have hk : s.entry k = some .pending := by
          rw [← hk]
          exact (entry_setEntry.trans (if_neg heq)).symm
        obtain ⟨t', handler, hhandler, hstarts⟩ := h.pending k hk
        exact ⟨t', handler, hgoes hhandler fun hplain => hplain.not_starts hstarts, hstarts⟩
    starts := fun t' handler k hhandler hstarts => by
      rcases update_eq_some.1 hhandler with ⟨-, hnew⟩ | ⟨-, hother⟩
      · cases hnew
        exact hstarts.1 ▸ hpending
      · exact hstays (h.starts t' handler k hother hstarts)
    startsOnce := fun t₁ t₂ handler₁ handler₂ k h₁ h₂ hs₁ hs₂ => by
      have hnot : ∀ {t' handler}, s.handlers t' = some handler → ¬ handler.Starts a :=
        fun hhandler hstarts => by cases hnone.symm.trans (h.starts _ _ a hhandler hstarts)
      rcases update_eq_some.1 h₁ with ⟨heq₁, hnew₁⟩ | ⟨-, hold₁⟩ <;>
        rcases update_eq_some.1 h₂ with ⟨heq₂, hnew₂⟩ | ⟨-, hold₂⟩
      · exact heq₁.trans heq₂.symm
      · cases hnew₁
        exact absurd (hs₁.1 ▸ hs₂) (hnot hold₂)
      · cases hnew₂
        exact absurd (hs₂.1 ▸ hs₁) (hnot hold₁)
      · exact h.startsOnce t₁ t₂ handler₁ handler₂ k hold₁ hold₂ hs₁ hs₂
    filed := fun k i hk => by
      rcases h.filed k i (hwas hk) with hrunning | ⟨t', deletes, j, hr⟩ | ⟨t', handler, hr, hi⟩
      · exact Or.inl hrunning
      · exact Or.inr (Or.inl ⟨t', deletes, j, hgoes hr id⟩)
      · exact Or.inr (Or.inr ⟨t', handler, hgoes hr fun hplain => hplain.not_renames hi, hi⟩)
    running := fun i hi => by
      obtain ⟨k, haddress, hk, hfollowed⟩ := h.running i hi
      exact ⟨k, haddress, hstays hk, hfollowed⟩
    once := fun k k' i hk hk' => h.once k k' i (hwas hk) (hwas hk')
    fresh := fun i hi => by
      refine ⟨fun k hk => (h.fresh i hi).1 k (hwas hk), fun t' handler hhandler hmentions => ?_⟩
      rcases update_eq_some.1 hhandler with ⟨-, hnew⟩ | ⟨-, hother⟩
      · cases hnew
        cases hmentions
      · exact (h.fresh i hi).2 t' handler hother hmentions
    awaiting := fun t' operation k i hhandler => by
      rcases update_eq_some.1 hhandler with ⟨-, hnew⟩ | ⟨-, hother⟩
      · cases hnew
      obtain ⟨haddress, hunfiled, hothers⟩ := h.awaiting t' operation k i hother
      refine ⟨haddress, fun k' hk' => hunfiled k' (hwas hk'), fun t'' handler hne hhandler hm => ?_⟩
      rcases update_eq_some.1 hhandler with ⟨-, hnew⟩ | ⟨-, hother⟩
      · cases hnew
        cases hm
      · exact hothers t'' handler hne hother hm
    renames := fun t' handler j hhandler hj => by
      rcases update_eq_some.1 hhandler with ⟨-, hnew⟩ | ⟨-, hother⟩
      · cases hnew
        cases hj
      obtain ⟨hfollowed, hstopped, k, hk, haddress⟩ := h.renames t' handler j hother hj
      exact ⟨hfollowed, hstopped, k, hstays hk, haddress⟩
    renamesOnce := fun t₁ t₂ handler₁ handler₂ j₁ j₂ h₁ h₂ hj₁ hj₂ heq => by
      rcases update_eq_some.1 h₁ with ⟨-, hnew₁⟩ | ⟨-, hold₁⟩
      · cases hnew₁
        cases hj₁
      rcases update_eq_some.1 h₂ with ⟨-, hnew₂⟩ | ⟨-, hold₂⟩
      · cases hnew₂
        cases hj₂
      exact h.renamesOnce t₁ t₂ handler₁ handler₂ j₁ j₂ hold₁ hold₂ hj₁ hj₂ heq
    removing := fun t' k i hhandler => by
      rcases update_eq_some.1 hhandler with ⟨-, hnew⟩ | ⟨-, hother⟩
      · cases hnew
      · exact h.removing t' k i hother }

omit [DecidableEq C] [DecidableEq I] in
/-- A start that fails deletes its entry. -/
theorem Ok.dropPending {old : Handler A I} (h : Ok config s) (hold : s.handlers t = some old)
    (hstarts : old.Starts a) (hrenames : ∀ i, ¬ old.Renames i)
    (hremoving : ∀ deletes a i, old ≠ .removing deletes a i) :
    Ok config ((s.deleteEntry a).setHandler t none) := by
  have hpending : s.entry a = some .pending := h.starts t old a hold hstarts
  have hne : ∀ {k i}, s.entry k = some (.community i) → k ≠ a := by
    rintro k i hk rfl
    cases hpending.symm.trans hk
  have hother : ∀ {k}, k ≠ a → (s.deleteEntry a).entry k = s.entry k :=
    fun hka => entry_deleteEntry.trans (if_neg hka)
  have hwas : ∀ {k entry}, (s.deleteEntry a).entry k = some entry →
      k ≠ a ∧ s.entry k = some entry := by
    intro k entry hk
    rw [entry_deleteEntry] at hk
    split at hk
    · cases hk
    · exact ⟨‹_›, hk⟩
  have hgoes : ∀ {t' : T} {handler : Handler A I}, s.handlers t' = some handler → handler ≠ old →
      (s.setHandler t none).handlers t' = some handler := by
    intro t' handler hhandler hne
    refine handlers_setHandler_none.2 ⟨?_, hhandler⟩
    rintro rfl
    exact hne (Option.some.inj (hhandler.symm.trans hold))
  exact {
    identity := h.identity
    pending := fun k hk => by
      obtain ⟨hka, hk⟩ := hwas hk
      obtain ⟨t', handler, hhandler, hs⟩ := h.pending k hk
      refine ⟨t', handler, handlers_setHandler_none.2 ⟨?_, hhandler⟩, hs⟩
      rintro rfl
      obtain rfl := Option.some.inj (hhandler.symm.trans hold)
      exact hka (hs.unique hstarts)
    starts := fun t' handler k hhandler hs => by
      obtain ⟨hne', hhandler⟩ := handlers_setHandler_none.1 hhandler
      have hka : k ≠ a := by
        rintro rfl
        exact hne' (h.startsOnce t' t handler old k hhandler hold hs hstarts)
      exact (hother hka).trans (h.starts t' handler k hhandler hs)
    startsOnce := fun t₁ t₂ handler₁ handler₂ k h₁ h₂ => h.startsOnce t₁ t₂ handler₁ handler₂ k
      (handlers_setHandler_none.1 h₁).2 (handlers_setHandler_none.1 h₂).2
    filed := fun k i hk => by
      rcases h.filed k i (hwas hk).2 with hrunning | ⟨t', deletes, j, hr⟩ | ⟨t', handler, hr, hi⟩
      · exact Or.inl hrunning
      · exact Or.inr (Or.inl ⟨t', deletes, j, hgoes hr (hremoving deletes k j).symm⟩)
      · exact Or.inr (Or.inr ⟨t', handler, hgoes hr fun heq => hrenames i (heq ▸ hi), hi⟩)
    running := fun i hi => by
      obtain ⟨k, haddress, hk, hfollowed⟩ := h.running i hi
      exact ⟨k, haddress, (hother (hne hk)).trans hk, hfollowed⟩
    once := fun k k' i hk hk' => h.once k k' i (hwas hk).2 (hwas hk').2
    fresh := fun i hi => ⟨fun k hk => (h.fresh i hi).1 k (hwas hk).2, fun t' handler hhandler =>
      (h.fresh i hi).2 t' handler (handlers_setHandler_none.1 hhandler).2⟩
    awaiting := fun t' operation k i hhandler => by
      obtain ⟨haddress, hunfiled, hothers⟩ :=
        h.awaiting t' operation k i (handlers_setHandler_none.1 hhandler).2
      exact ⟨haddress, fun k' hk' => hunfiled k' (hwas hk').2, fun t'' handler hne' hhandler =>
        hothers t'' handler hne' (handlers_setHandler_none.1 hhandler).2⟩
    renames := fun t' handler j hhandler hj => by
      obtain ⟨hfollowed, hstopped, k, hk, haddress⟩ :=
        h.renames t' handler j (handlers_setHandler_none.1 hhandler).2 hj
      exact ⟨hfollowed, hstopped, k, (hother (hne hk)).trans hk, haddress⟩
    renamesOnce := fun t₁ t₂ handler₁ handler₂ j₁ j₂ h₁ h₂ => h.renamesOnce t₁ t₂ handler₁ handler₂
      j₁ j₂ (handlers_setHandler_none.1 h₁).2 (handlers_setHandler_none.1 h₂).2
    removing := fun t' k i hhandler => h.removing t' k i (handlers_setHandler_none.1 hhandler).2 }

omit [DecidableEq T] in
/-- The instance is filed under the address it was created with. -/
theorem start_eq {operation : Operation} (haddress : s.address i = some a) :
    s.start config operation a i = { s with
      startedCommunities := Dictionary.set s.startedCommunities a (.community i)
      communityStates := Function.update s.communityStates a (some ⟨true, false⟩)
      started := Function.update s.started (config.identity i) (some i)
      followed := Function.update s.followed i true
      last := if operation = .start then Function.update s.last (config.identity i) (some .start)
        else s.last } := by
  have hentry : Dictionary.get (Dictionary.set s.startedCommunities a (.community i)) a =
      some (.community i) := Dictionary.get_set.trans (if_pos rfl)
  simp only [State.start, State.fileUnderItsAddress, State.updateCommunityState, State.setEntry,
    State.setStarted, State.entry, haddress, hentry, if_true, State.complete]
  split <;> rfl

/-- A start that succeeds replaces its pending entry. -/
theorem Ok.start {operation : Operation} (h : Ok config s)
    (hhandler : s.handlers t = some (.awaitingStart operation a i))
    (hlock : s.started (config.identity i) = none)
    (hsettled : s.Settled config (config.identity i)) :
    Ok config ((s.start config operation a i).setHandler t none) := by
  obtain ⟨haddress, hunfiled, hothers⟩ := h.awaiting t operation a i hhandler
  have hpending : s.entry a = some .pending := h.starts t _ a hhandler rfl
  rw [start_eq haddress]
  have hentry : ∀ {k}, k ≠ a → (s.setEntry a (.community i)).entry k = s.entry k :=
    fun hne => entry_setEntry.trans (if_neg hne)
  have hfiled : (s.setEntry a (.community i)).entry a = some (.community i) :=
    entry_setEntry.trans (if_pos rfl)
  have hne : ∀ {k j}, s.entry k = some (.community j) → k ≠ a := by
    rintro k j hk rfl
    cases hpending.symm.trans hk
  have hwas : ∀ {k j}, (s.setEntry a (.community i)).entry k = some (.community j) →
      k = a ∧ j = i ∨ s.entry k = some (.community j) := by
    intro k j hk
    by_cases heq : k = a
    · rw [heq, hfiled] at hk
      cases hk
      exact Or.inl ⟨heq, rfl⟩
    · exact Or.inr ((hentry heq).symm.trans hk)
  have hstays : ∀ {j}, s.Running config j → Function.update s.started (config.identity i) (some i)
      (config.identity j) = some j := by
    intro j hj
    refine (Function.update_of_ne ?_ _ _).trans hj
    intro heq
    rw [State.Running, heq, hlock] at hj
    cases hj
  have hgoes : ∀ {t' : T} {handler : Handler A I}, s.handlers t' = some handler →
      handler ≠ .awaitingStart operation a i → (s.setHandler t none).handlers t' = some handler := by
    intro t' handler hother hne
    refine handlers_setHandler_none.2 ⟨?_, hother⟩
    rintro rfl
    exact hne (Option.some.inj (hother.symm.trans hhandler))
  exact {
    identity := fun c j hj => by
      rcases update_eq_some.1 hj with ⟨rfl, heq⟩ | ⟨-, hj⟩
      · cases heq
        rfl
      · exact h.identity c j hj
    pending := fun k hk => by
      have hka : k ≠ a := by
        rintro rfl
        cases hfiled.symm.trans hk
      obtain ⟨t', handler, hother, hs⟩ := h.pending k ((hentry hka).symm.trans hk)
      refine ⟨t', handler, hgoes hother ?_, hs⟩
      rintro rfl
      exact hka hs.symm
    starts := fun t' handler k hother hs => by
      obtain ⟨hne', hother⟩ := handlers_setHandler_none.1 hother
      have hka : k ≠ a := by
        rintro rfl
        exact hne' (h.startsOnce t' t handler _ k hother hhandler hs rfl)
      exact (hentry hka).trans (h.starts t' handler k hother hs)
    startsOnce := fun t₁ t₂ handler₁ handler₂ k h₁ h₂ => h.startsOnce t₁ t₂ handler₁ handler₂ k
      (handlers_setHandler_none.1 h₁).2 (handlers_setHandler_none.1 h₂).2
    filed := fun k j hk => by
      rcases hwas hk with ⟨rfl, rfl⟩ | hk
      · exact Or.inl ⟨Function.update_self .., haddress⟩
      · rcases h.filed k j hk with ⟨hr, hj⟩ | ⟨t', deletes, j', hr⟩ | ⟨t', handler, hr, hj⟩
        · exact Or.inl ⟨hstays hr, hj⟩
        · exact Or.inr (Or.inl ⟨t', deletes, j', hgoes hr (by simp)⟩)
        · refine Or.inr (Or.inr ⟨t', handler, hgoes hr ?_, hj⟩)
          rintro rfl
          exact hj
    running := fun j hj => by
      by_cases heq : j = i
      · subst heq
        exact ⟨a, haddress, hfiled, Function.update_self ..⟩
      · have hj : s.Running config j := by
          rcases update_eq_some.1 hj with ⟨-, hij⟩ | ⟨-, hj⟩
          · exact absurd (Option.some.inj hij).symm heq
          · exact hj
        obtain ⟨k, hk, hkentry, hfollowed⟩ := h.running j hj
        exact ⟨k, hk, (hentry (hne hkentry)).trans hkentry,
          (Function.update_of_ne heq _ _).trans hfollowed⟩
    once := fun k k' j hk hk' => by
      rcases hwas hk with ⟨hka, heq⟩ | hold <;> rcases hwas hk' with ⟨hka', heq'⟩ | hold'
      · exact hka.trans hka'.symm
      · exact absurd (heq ▸ hold') (hunfiled k')
      · exact absurd (heq' ▸ hold) (hunfiled k)
      · exact h.once k k' j hold hold'
    fresh := fun j hj => by
      refine ⟨fun k hk => ?_, fun t' handler hother =>
        (h.fresh j hj).2 t' handler (handlers_setHandler_none.1 hother).2⟩
      rcases hwas hk with ⟨-, rfl⟩ | hk
      · cases haddress.symm.trans hj
      · exact (h.fresh j hj).1 k hk
    awaiting := fun t' operation' k j hother => by
      obtain ⟨hne', hother⟩ := handlers_setHandler_none.1 hother
      obtain ⟨hj, hunfiled', hothers'⟩ := h.awaiting t' operation' k j hother
      refine ⟨hj, fun k' hk' => ?_, fun t'' handler hne'' hother'' =>
        hothers' t'' handler hne'' (handlers_setHandler_none.1 hother'').2⟩
      rcases hwas hk' with ⟨-, rfl⟩ | hk'
      · exact hothers t' _ hne' hother rfl
      · exact hunfiled' k' hk'
    renames := fun t' handler j hother hj => by
      obtain ⟨hne', hother⟩ := handlers_setHandler_none.1 hother
      obtain ⟨hfollowed, hstopped, k, hk, haddress'⟩ := h.renames t' handler j hother hj
      have hcommunity : config.identity j ≠ config.identity i :=
        fun heq => hsettled j heq ⟨t', handler, hother, hj⟩
      have hji : j ≠ i := fun heq => hcommunity (heq ▸ rfl)
      exact ⟨(Function.update_of_ne hji _ _).trans hfollowed,
        fun i' hi' => hstopped i' ((Function.update_of_ne hcommunity _ _).symm.trans hi'), k,
        (hentry (hne hk)).trans hk, haddress'⟩
    renamesOnce := fun t₁ t₂ handler₁ handler₂ j₁ j₂ h₁ h₂ => h.renamesOnce t₁ t₂ handler₁ handler₂
      j₁ j₂ (handlers_setHandler_none.1 h₁).2 (handlers_setHandler_none.1 h₂).2
    removing := fun t' k j hother => h.removing t' k j (handlers_setHandler_none.1 hother).2 }

omit [DecidableEq C] in
/-- The entry of a community that has stopped is deleted. -/
theorem Ok.removeEntry {deletes : Bool} (h : Ok config s)
    (hhandler : s.handlers t = some (.removing deletes a i))
    (hstopped : s.started (config.identity i) = none)
    (hsettled : s.Settled config (config.identity i))
    (hentry : ∀ entry, s.entry a = some entry →
      ∃ j, entry = .community j ∧ ¬ s.Running config j ∧ ¬ s.Renaming j) :
    Ok config (({ s with followed := Function.update s.followed i false }.deleteEntry a).setHandler t
      none) := by
  have hother : ∀ {k}, k ≠ a → (s.deleteEntry a).entry k = s.entry k :=
    fun hne => entry_deleteEntry.trans (if_neg hne)
  have hwas : ∀ {k entry}, (s.deleteEntry a).entry k = some entry →
      k ≠ a ∧ s.entry k = some entry := by
    intro k entry hk
    rw [entry_deleteEntry] at hk
    split at hk
    · cases hk
    · exact ⟨‹_›, hk⟩
  have hgoes : ∀ {t' : T} {handler : Handler A I}, s.handlers t' = some handler →
      handler ≠ .removing deletes a i → (s.setHandler t none).handlers t' = some handler := by
    intro t' handler hother hne
    refine handlers_setHandler_none.2 ⟨?_, hother⟩
    rintro rfl
    exact hne (Option.some.inj (hother.symm.trans hhandler))
  -- what runs or is renamed is neither this community nor filed here
  have hrunning : ∀ {j k}, s.Running config j → s.entry k = some (.community j) → k ≠ a ∧ j ≠ i := by
    refine fun {j k} hj hk => ⟨?_, ?_⟩
    · rintro rfl
      obtain ⟨j', heq, hnot, -⟩ := hentry _ hk
      cases heq
      exact hnot hj
    · rintro rfl
      cases hstopped.symm.trans hj
  have hrenaming : ∀ {j k}, s.Renaming j → s.entry k = some (.community j) → k ≠ a ∧ j ≠ i := by
    refine fun {j k} hj hk => ⟨?_, ?_⟩
    · rintro rfl
      obtain ⟨j', heq, -, hnot⟩ := hentry _ hk
      cases heq
      exact hnot hj
    · rintro rfl
      exact hsettled j rfl hj
  exact {
    identity := h.identity
    pending := fun k hk => by
      obtain ⟨-, hk⟩ := hwas hk
      obtain ⟨t', handler, hhandler', hs⟩ := h.pending k hk
      refine ⟨t', handler, hgoes hhandler' ?_, hs⟩
      rintro rfl
      exact hs
    starts := fun t' handler k hhandler' hs => by
      have hk := h.starts t' handler k (handlers_setHandler_none.1 hhandler').2 hs
      have hka : k ≠ a := by
        rintro rfl
        obtain ⟨j, heq, -⟩ := hentry _ hk
        cases heq
      exact (hother hka).trans hk
    startsOnce := fun t₁ t₂ handler₁ handler₂ k h₁ h₂ => h.startsOnce t₁ t₂ handler₁ handler₂ k
      (handlers_setHandler_none.1 h₁).2 (handlers_setHandler_none.1 h₂).2
    filed := fun k j hk => by
      obtain ⟨hka, hk⟩ := hwas hk
      rcases h.filed k j hk with hr | ⟨t', deletes', j', hr⟩ | ⟨t', handler, hr, hj⟩
      · exact Or.inl hr
      · refine Or.inr (Or.inl ⟨t', deletes', j', hgoes hr ?_⟩)
        rintro ⟨⟩
        exact hka rfl
      · refine Or.inr (Or.inr ⟨t', handler, hgoes hr ?_, hj⟩)
        rintro rfl
        exact hj
    running := fun j hj => by
      obtain ⟨k, haddress, hk, hfollowed⟩ := h.running j hj
      obtain ⟨hka, hji⟩ := hrunning hj hk
      exact ⟨k, haddress, (hother hka).trans hk, (Function.update_of_ne hji _ _).trans hfollowed⟩
    once := fun k k' j hk hk' => h.once k k' j (hwas hk).2 (hwas hk').2
    fresh := fun j hj => ⟨fun k hk => (h.fresh j hj).1 k (hwas hk).2, fun t' handler hhandler' =>
      (h.fresh j hj).2 t' handler (handlers_setHandler_none.1 hhandler').2⟩
    awaiting := fun t' operation k j hhandler' => by
      obtain ⟨haddress, hunfiled, hothers⟩ :=
        h.awaiting t' operation k j (handlers_setHandler_none.1 hhandler').2
      exact ⟨haddress, fun k' hk' => hunfiled k' (hwas hk').2, fun t'' handler hne hhandler'' =>
        hothers t'' handler hne (handlers_setHandler_none.1 hhandler'').2⟩
    renames := fun t' handler j hhandler' hj => by
      have hhandler' := (handlers_setHandler_none.1 hhandler').2
      obtain ⟨hfollowed, hs, k, hk, haddress⟩ := h.renames t' handler j hhandler' hj
      obtain ⟨hka, hji⟩ := hrenaming ⟨t', handler, hhandler', hj⟩ hk
      exact ⟨(Function.update_of_ne hji _ _).trans hfollowed, hs, k, (hother hka).trans hk, haddress⟩
    renamesOnce := fun t₁ t₂ handler₁ handler₂ j₁ j₂ h₁ h₂ => h.renamesOnce t₁ t₂ handler₁ handler₂
      j₁ j₂ (handlers_setHandler_none.1 h₁).2 (handlers_setHandler_none.1 h₂).2
    removing := fun t' k j hhandler' => h.removing t' k j (handlers_setHandler_none.1 hhandler').2 }

omit [DecidableEq I] in
/-- A community that was stopped to be renamed runs again. -/
theorem Ok.resume {old : Handler A I} {b : A} (h : Ok config s) (hold : s.handlers t = some old)
    (hj : old.Renames j) (hstopped : old.HasStopped) (haddress : s.address j = some b)
    (hb : s.entry b = some (.community j)) :
    Ok config ((s.setStarted (config.identity j) (some j)).setHandler t none) := by
  obtain ⟨hfollowed, hnone, -⟩ := h.renames t old j hold hj
  have hnone : s.started (config.identity j) = none := Option.eq_none_iff_forall_ne_some.2
    fun i hi => (hnone i hi).2 hstopped
  have hother : ∀ {c}, c ≠ config.identity j →
      (s.setStarted (config.identity j) (some j)).started c = s.started c :=
    fun hne => Function.update_of_ne hne _ _
  have hstays : ∀ {i}, s.Running config i →
      (s.setStarted (config.identity j) (some j)).started (config.identity i) = some i := by
    intro i hi
    refine (hother ?_).trans hi
    intro heq
    rw [State.Running, heq, hnone] at hi
    cases hi
  have hgoes : ∀ {t' : T} {handler : Handler A I}, s.handlers t' = some handler → handler ≠ old →
      (s.setHandler t none).handlers t' = some handler := by
    intro t' handler hother hne
    refine handlers_setHandler_none.2 ⟨?_, hother⟩
    rintro rfl
    exact hne (Option.some.inj (hother.symm.trans hold))
  have hstarts : ∀ k, ¬ old.Starts k := by
    intro k hs
    cases old <;> first | exact hj | exact hs
  exact {
    identity := fun c i hi => by
      rcases update_eq_some.1 hi with ⟨rfl, heq⟩ | ⟨-, hi⟩
      · cases heq
        rfl
      · exact h.identity c i hi
    pending := fun k hk => by
      obtain ⟨t', handler, hhandler, hs⟩ := h.pending k hk
      exact ⟨t', handler, hgoes hhandler fun heq => hstarts k (heq ▸ hs), hs⟩
    starts := fun t' handler k hhandler hs =>
      h.starts t' handler k (handlers_setHandler_none.1 hhandler).2 hs
    startsOnce := fun t₁ t₂ handler₁ handler₂ k h₁ h₂ => h.startsOnce t₁ t₂ handler₁ handler₂ k
      (handlers_setHandler_none.1 h₁).2 (handlers_setHandler_none.1 h₂).2
    filed := fun k i hk => by
      by_cases heq : i = j
      · subst heq
        obtain rfl := h.once k b i hk hb
        exact Or.inl ⟨Function.update_self .., haddress⟩
      rcases h.filed k i hk with ⟨hr, hi⟩ | ⟨t', deletes, i', hr⟩ | ⟨t', handler, hr, hi⟩
      · exact Or.inl ⟨hstays hr, hi⟩
      · refine Or.inr (Or.inl ⟨t', deletes, i', hgoes hr ?_⟩)
        rintro rfl
        exact hj
      · refine Or.inr (Or.inr ⟨t', handler, handlers_setHandler_none.2 ⟨?_, hr⟩, hi⟩)
        rintro rfl
        obtain rfl := Option.some.inj (hr.symm.trans hold)
        cases handler <;> first | exact hi | exact heq (hi.symm.trans hj)
    running := fun i hi => by
      by_cases heq : i = j
      · subst heq
        exact ⟨b, haddress, hb, hfollowed⟩
      · refine h.running i ?_
        rcases update_eq_some.1 hi with ⟨-, hij⟩ | ⟨-, hi⟩
        · exact absurd (Option.some.inj hij).symm heq
        · exact hi
    once := h.once
    fresh := fun i hi => ⟨(h.fresh i hi).1, fun t' handler hhandler =>
      (h.fresh i hi).2 t' handler (handlers_setHandler_none.1 hhandler).2⟩
    awaiting := fun t' operation k i hhandler => by
      obtain ⟨hi, hunfiled, hothers⟩ :=
        h.awaiting t' operation k i (handlers_setHandler_none.1 hhandler).2
      exact ⟨hi, hunfiled, fun t'' handler hne hhandler' =>
        hothers t'' handler hne (handlers_setHandler_none.1 hhandler').2⟩
    renames := fun t' handler i hhandler hi => by
      obtain ⟨hne, hhandler⟩ := handlers_setHandler_none.1 hhandler
      obtain ⟨hfollowed', hs, hfiled⟩ := h.renames t' handler i hhandler hi
      refine ⟨hfollowed', fun i' hi' => hs i' ((hother fun heq => ?_).symm.trans hi'), hfiled⟩
      exact hne (h.renamesOnce t' t handler old i j hhandler hold hi hj heq)
    renamesOnce := fun t₁ t₂ handler₁ handler₂ j₁ j₂ h₁ h₂ => h.renamesOnce t₁ t₂ handler₁ handler₂
      j₁ j₂ (handlers_setHandler_none.1 h₁).2 (handlers_setHandler_none.1 h₂).2
    removing := fun t' k i hhandler => h.removing t' k i (handlers_setHandler_none.1 hhandler).2 }

end Entries

end Effects

end Keeps

end StartedCommunities
end Rpc
end Pkc

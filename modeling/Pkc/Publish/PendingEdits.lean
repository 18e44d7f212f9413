import Pkc.Library.Patch
import Pkc.Library.Runs
import Mathlib.Tactic.Spread

/-!
# Community edits across a publish cycle

An edit of a running community is registered in `_pendingEditProps` and applied to the instance at
once.  The next record is built from the instance with the pending edits spread over it, and when
the record has been published — seconds to minutes later — the instance is overwritten by it, the
edits that were in it are removed from the pending list by their ids, and the edits that remain
are applied to the instance again.

* The id of an edit is the hash of its content (`editId`), so two edits of equal content share it.
* The topic of the challenge exchange does not take part in the spread: the record is given the
  instance's own topic (`challengeExchangePubsubTopic`), none at all while the exchange is
  disabled, and the instance keeps its topic then.
* `Edit` is what an edit contains; a value is what `cleanUpBeforePublishing` leaves of it, so that
  an unset field and an empty one are both `none`.  An edit that moves the community to another
  address stops the community first and restarts it, and is not an edit of a running cycle.

`Harmless` collects when an edit accepted at a bad moment survives, and `edits_survive` proves that
after a cycle without further edits the record and the instance then carry, for every field, the
value of the last accepted edit that set it.
-/

set_option autoImplicit false

namespace Pkc
namespace PendingEdits

open Runs Patch

/-- The fields of a record that an edit can set, directly or, as `challenges` and `pageSorts`,
through the settings they are derived from. -/
inductive Field
  | flairs | name | title | description | roles | rules | pubsubTopic | features | suggested
  | challenges | pageSorts
deriving DecidableEq, Repr

def Field.all : List Field :=
  [.flairs, .name, .title, .description, .roles, .rules, .pubsubTopic, .features, .suggested,
    .challenges, .pageSorts]

universe u v

/-- The part of `community.settings` the publish cycle reads, and the rest of it. -/
structure Settings (V : Type u) where
  disablePubsubChallengeExchange : Bool
  others : V
deriving DecidableEq

/-- The fields of a record or of the instance. -/
abbrev Props (V : Type u) := Field → Option V

/-- A parsed edit.  `fields f = some none` is an edit that sets `f` to nothing. -/
structure Edit (V : Type u) where
  fields : Field → Option (Option V)
  settings : Option (Settings V)

variable {V : Type u} {Id : Type v} [DecidableEq Id]

/-- What `deterministicStringify` writes of an edit: its keys in a fixed order, without the ones
that hold nothing. -/
def Edit.content (e : Edit V) : List (Field × V) × Option (Settings V) :=
  (Field.all.filterMap fun f => ((e.fields f).join).map fun v => (f, v), e.settings)

/-- A pending edit with its id. -/
structure PendingEdit (V : Type u) (Id : Type v) where
  editId : Id
  edit : Edit V

/-- A record on its way: the ids of the edits it carries and its fields. -/
structure InFlight (V : Type u) (Id : Type v) where
  editIdsToIncludeInNextUpdate : List Id
  record : Props V

structure State (V : Type u) (Id : Type v) where
  /-- The fields of the instance. -/
  instanceProps : Props V
  settings : Settings V
  /-- `community.raw.communityIpfs`, once a first record has been published. -/
  raw : Option (Props V)
  pendingEditProps : List (PendingEdit V Id)
  cycle : Option (InFlight V Id)
  /-- The record that is currently published. -/
  published : Option (Props V)
  /-- History variable: the accepted edits, oldest first.  Read by no transition. -/
  accepted : List (Edit V)

namespace State

/-- The pending edits spread into one object. -/
def pendingProps (pending : List (PendingEdit V Id)) : Field → Option (Option V) :=
  merged (pending.map fun p => p.edit.fields)

/-- The last topic a list of pending edits gives. -/
def lastTopic (pending : List (PendingEdit V Id)) : Option V :=
  (pending.filterMap fun p => (p.edit.fields .pubsubTopic).join).getLast?

/-- The pending edits a record does not carry. -/
def remaining (pending : List (PendingEdit V Id)) (ids : List Id) : List (PendingEdit V Id) :=
  pending.filter fun p => p.editId ∉ ids

/-- The pending edits that are removed when a record with these ids is published. -/
def carried (pending : List (PendingEdit V Id)) (ids : List Id) : List (PendingEdit V Id) :=
  pending.filter fun p => p.editId ∈ ids

/-- Registering an edit and initialising the instance from it.  After the first record the fields
come from the raw record with the edit over it; the topic is kept when that leaves none. -/
def applyEdit (hash : List (Field × V) × Option (Settings V) → Id) (s : State V Id) (e : Edit V) :
    State V Id :=
  { s with
    settings := e.settings.getD s.settings
    pendingEditProps := s.pendingEditProps ++ [⟨hash e.content, e⟩]
    accepted := s.accepted ++ [e]
    raw := s.raw.map fun raw => assign raw e.fields
    instanceProps :=
      match s.raw with
      | none => assign s.instanceProps e.fields
      | some raw => fun f =>
        if f = .pubsubTopic then (assign raw e.fields f).or (s.instanceProps f)
        else assign raw e.fields f }

/-- The topic the record is published with. -/
def challengeExchangePubsubTopic (signerAddress : V) (s : State V Id) : Option V :=
  if s.settings.disablePubsubChallengeExchange then none
  else some ((s.instanceProps .pubsubTopic).getD signerAddress)

/-- The contents of the next record. -/
def calculateNextCommunityRecord (signerAddress : V) (s : State V Id) : InFlight V Id where
  editIdsToIncludeInNextUpdate := s.pendingEditProps.map PendingEdit.editId
  record := fun f =>
    if f = .pubsubTopic then s.challengeExchangePubsubTopic signerAddress
    else assign s.instanceProps (pendingProps s.pendingEditProps) f

/-- The instance right after it was overwritten by the published record: a record without a topic
leaves the configured one in place, or the one an edit in the record configured. -/
def initCommunityIpfsProps (s : State V Id) (flight : InFlight V Id) : Props V := fun f =>
  if f = .pubsubTopic then
    (flight.record f).or
      ((lastTopic (carried s.pendingEditProps flight.editIdsToIncludeInNextUpdate)).or
        (s.instanceProps f))
  else flight.record f

/-- What happens once the record is published. -/
def recordPublished (s : State V Id) (flight : InFlight V Id) : State V Id :=
  let left := remaining s.pendingEditProps flight.editIdsToIncludeInNextUpdate
  { s with
    instanceProps := assign (s.initCommunityIpfsProps flight) (pendingProps left)
    raw := some flight.record
    published := some flight.record
    pendingEditProps := left
    cycle := none }

end State

inductive Action (V : Type u)
  | edit (e : Edit V)
  /-- Build the next record: the cycle's snapshot of the pending edits. -/
  | calculateNextCommunityRecord
  | recordPublished
  | cycleFails

variable (hash : List (Field × V) × Option (Settings V) → Id) (signerAddress : V)

/-- The system.  `none` is an action that is not possible in the state. -/
def step (s : State V Id) : Action V → Option (State V Id)
  | .edit e => some (s.applyEdit hash e)
  | .calculateNextCommunityRecord =>
    match s.cycle with
    | none => some { s with cycle := some (s.calculateNextCommunityRecord signerAddress) }
    | some _ => none
  | .recordPublished => s.cycle.map s.recordPublished
  | .cycleFails => s.cycle.map fun _ => { s with cycle := none }

/-! ## The property and the condition -/

/-- The value of the last accepted edit that set a field. -/
def State.lastAccepted (s : State V Id) : Field → Option (Option V) :=
  merged (s.accepted.map Edit.fields)

/-- The settings of the last accepted edit that set them. -/
def State.lastSettings (s : State V Id) : Option (Settings V) :=
  (s.accepted.filterMap Edit.settings).getLast?

/-- Every field an accepted edit has set has the value of the last of them, in the published record
and on the instance; a record published with the exchange disabled omits the topic.  The settings,
which no record carries, are those of the last edit that set them. -/
def EditsPublished (s : State V Id) : Prop :=
  (∀ settings, s.lastSettings = some settings → s.settings = settings) ∧
    ∃ record, s.published = some record ∧
      ∀ f v, s.lastAccepted f = some v →
        s.instanceProps f = v ∧
          record f =
            if f = .pubsubTopic ∧ s.settings.disablePubsubChallengeExchange = true then none else v

/-- When an edit is accepted without harm.

* It does not set the topic to nothing.
* If a record in flight carries an edit of the same id, every field it sets already has, as its
  last accepted value, the value it sets it to.
* If it does not set the topic, the raw record's topic is the instance's. -/
structure HarmlessEdit (s : State V Id) (e : Edit V) : Prop where
  topic_given : e.fields .pubsubTopic ≠ some none
  same_id : ∀ flight, s.cycle = some flight →
    hash e.content ∈ flight.editIdsToIncludeInNextUpdate →
    ∀ f v, e.fields f = some v → s.lastAccepted f = some v
  raw_topic : e.fields .pubsubTopic = none → ∀ raw topic, s.raw = some raw →
    raw .pubsubTopic = some topic → s.instanceProps .pubsubTopic = some topic

/-- Every edit is accepted without harm; the publish cycle is unrestricted. -/
def Harmless (s : State V Id) : Action V → Prop
  | .edit e => HarmlessEdit hash s e
  | _ => True

/-! ## The lists of edits after one more edit -/

section Lists

variable {hash signerAddress}

omit [DecidableEq Id] in
theorem lastAccepted_applyEdit (s : State V Id) (e : Edit V) (f : Field) :
    (s.applyEdit hash e).lastAccepted f = (e.fields f).or (s.lastAccepted f) := by
  rw [State.lastAccepted, State.applyEdit, List.map_append, List.map_singleton, merged_concat]
  rfl

omit [DecidableEq Id] in
theorem pendingProps_concat (pending : List (PendingEdit V Id)) (p : PendingEdit V Id) (f : Field) :
    State.pendingProps (pending ++ [p]) f = (p.edit.fields f).or (State.pendingProps pending f) := by
  rw [State.pendingProps, List.map_append, List.map_singleton, merged_concat]
  rfl

omit [DecidableEq Id] in
theorem lastTopic_concat (pending : List (PendingEdit V Id)) (p : PendingEdit V Id) :
    State.lastTopic (pending ++ [p]) =
      (p.edit.fields .pubsubTopic).join.or (State.lastTopic pending) := by
  rw [State.lastTopic, List.filterMap_append, List.getLast?_append, State.lastTopic]
  cases h : (p.edit.fields .pubsubTopic).join <;> simp [h]

theorem remaining_concat_of_mem {pending : List (PendingEdit V Id)} {p : PendingEdit V Id}
    {ids : List Id} (h : p.editId ∈ ids) :
    State.remaining (pending ++ [p]) ids = State.remaining pending ids := by
  simp [State.remaining, List.filter_append, h]

theorem remaining_concat_of_not_mem {pending : List (PendingEdit V Id)} {p : PendingEdit V Id}
    {ids : List Id} (h : p.editId ∉ ids) :
    State.remaining (pending ++ [p]) ids = State.remaining pending ids ++ [p] := by
  simp [State.remaining, List.filter_append, h]

theorem carried_concat_of_mem {pending : List (PendingEdit V Id)} {p : PendingEdit V Id}
    {ids : List Id} (h : p.editId ∈ ids) :
    State.carried (pending ++ [p]) ids = State.carried pending ids ++ [p] := by
  simp [State.carried, List.filter_append, h]

theorem carried_concat_of_not_mem {pending : List (PendingEdit V Id)} {p : PendingEdit V Id}
    {ids : List Id} (h : p.editId ∉ ids) :
    State.carried (pending ++ [p]) ids = State.carried pending ids := by
  simp [State.carried, List.filter_append, h]

/-- A record built from the pending edits leaves none of them. -/
theorem remaining_self (pending : List (PendingEdit V Id)) :
    State.remaining pending (pending.map PendingEdit.editId) = [] := by
  rw [State.remaining, List.filter_eq_nil_iff]
  intro p hp
  simp only [decide_eq_true_eq, not_not]
  exact List.mem_map_of_mem hp

theorem carried_self (pending : List (PendingEdit V Id)) :
    State.carried pending (pending.map PendingEdit.editId) = pending := by
  rw [State.carried, List.filter_eq_self]
  intro p hp
  exact decide_eq_true (List.mem_map_of_mem hp)

omit [DecidableEq Id] in
/-- An edit of a field other than the topic reaches the instance, and one that does not set it
takes the field from the raw record. -/
theorem instanceProps_applyEdit {s : State V Id} {e : Edit V} {f : Field}
    (hf : f ≠ .pubsubTopic) :
    (s.applyEdit hash e).instanceProps f =
      (e.fields f).getD ((s.raw.getD s.instanceProps) f) := by
  rw [State.applyEdit]
  cases hraw : s.raw with
  | none => rfl
  | some raw => simp only [hf, if_false, Option.getD_some, assign]

omit [DecidableEq Id] in
/-- A harmless edit moves the instance's topic to the one it gives, if it gives one. -/
theorem topic_applyEdit {s : State V Id} {e : Edit V} (h : HarmlessEdit hash s e) :
    (s.applyEdit hash e).instanceProps .pubsubTopic =
      (e.fields .pubsubTopic).getD (s.instanceProps .pubsubTopic) := by
  rw [State.applyEdit]
  cases hraw : s.raw with
  | none => rfl
  | some raw =>
    simp only [if_true]
    cases he : e.fields .pubsubTopic with
    | none =>
      rw [assign_of_none he, Option.getD_none]
      cases htopic : raw .pubsubTopic with
      | none => rw [Option.none_or]
      | some topic => rw [Option.some_or, h.raw_topic he raw topic hraw htopic]
    | some v =>
      cases v with
      | none => exact absurd he h.topic_given
      | some topic => rw [assign_of_some he, Option.some_or, Option.getD_some]

end Lists

/-! ## The invariant

Spreading the pending edits over the instance gives every field its last accepted value, and so
does spreading them over the raw record, which the next edit starts from, and spreading those that
remain over the record in flight, which the publish puts in the instance's place. -/

/-- `record` with the edits `pending` over it has every field, the topic apart, at its last
accepted value. -/
def Carries (s : State V Id) (record : Props V) (pending : List (PendingEdit V Id)) : Prop :=
  ∀ f v, f ≠ .pubsubTopic → s.lastAccepted f = some v →
    assign record (State.pendingProps pending) f = v

/-- The last topic among `pending` is the last accepted one. -/
def TopicIsLast (s : State V Id) (pending : List (PendingEdit V Id)) : Prop :=
  ∀ t, State.lastTopic pending = some t → s.lastAccepted .pubsubTopic = some (some t)

structure InvInFlight (s : State V Id) (flight : InFlight V Id) : Prop where
  carries : Carries s flight.record
    (State.remaining s.pendingEditProps flight.editIdsToIncludeInNextUpdate)
  topic_is_last : TopicIsLast s
    (State.remaining s.pendingEditProps flight.editIdsToIncludeInNextUpdate)
  topic : ∀ t, s.lastAccepted .pubsubTopic = some (some t) →
    (s.recordPublished flight).instanceProps .pubsubTopic = some t

structure Inv (s : State V Id) : Prop where
  topic_given : s.lastAccepted .pubsubTopic ≠ some none
  settings : ∀ settings, s.lastSettings = some settings → s.settings = settings
  carries : Carries s s.instanceProps s.pendingEditProps
  raw_carries : ∀ raw, s.raw = some raw → Carries s raw s.pendingEditProps
  topic : ∀ t, s.lastAccepted .pubsubTopic = some (some t) → s.instanceProps .pubsubTopic = some t
  topic_is_last : TopicIsLast s s.pendingEditProps
  in_flight : ∀ flight, s.cycle = some flight → InvInFlight s flight

section Steps

variable {hash signerAddress}

omit [DecidableEq Id] in
/-- An edit keeps a record up to date with the pending edits that include it, whatever the record
holds in the fields the edit sets. -/
theorem carries_concat {s : State V Id} {e : Edit V} {record record' : Props V}
    {pending : List (PendingEdit V Id)} {id : Id} (h : Carries s record pending)
    (hrecord : ∀ f, f ≠ .pubsubTopic → e.fields f = none → record' f = record f) :
    Carries (s.applyEdit hash e) record' (pending ++ [⟨id, e⟩]) := by
  intro f v hf hlast
  rw [lastAccepted_applyEdit] at hlast
  rw [assign, pendingProps_concat]
  cases he : e.fields f with
  | some w =>
    rw [he, Option.some_or, Option.some.injEq] at hlast
    rw [Option.some_or, Option.getD_some, hlast]
  | none =>
    rw [he, Option.none_or] at hlast
    rw [Option.none_or, hrecord f hf he]
    exact h f v hf hlast

omit [DecidableEq Id] in
theorem topicIsLast_concat {s : State V Id} {e : Edit V} {pending : List (PendingEdit V Id)}
    {id : Id} (h : TopicIsLast s pending) (hgiven : e.fields .pubsubTopic ≠ some none) :
    TopicIsLast (s.applyEdit hash e) (pending ++ [⟨id, e⟩]) := by
  intro t ht
  rw [lastTopic_concat] at ht
  rw [lastAccepted_applyEdit]
  cases he : e.fields .pubsubTopic with
  | none =>
    rw [he, Option.join_none, Option.none_or] at ht
    rw [Option.none_or]
    exact h t ht
  | some topic =>
    cases topic with
    | none => exact absurd he hgiven
    | some topic =>
      rw [he, Option.join_some, Option.some_or] at ht
      rw [Option.some_or, ht]

/-- The instance's topic once the record in flight is published. -/
theorem recordPublished_topic (s : State V Id) (flight : InFlight V Id) :
    (s.recordPublished flight).instanceProps .pubsubTopic =
      (State.pendingProps
        (State.remaining s.pendingEditProps flight.editIdsToIncludeInNextUpdate) .pubsubTopic).getD
      ((flight.record .pubsubTopic).or
        ((State.lastTopic
          (State.carried s.pendingEditProps flight.editIdsToIncludeInNextUpdate)).or
          (s.instanceProps .pubsubTopic))) := rfl

theorem recordPublished_instanceProps (s : State V Id) (flight : InFlight V Id) :
    (s.recordPublished flight).instanceProps =
      assign (s.initCommunityIpfsProps flight)
        (State.pendingProps (s.recordPublished flight).pendingEditProps) := rfl

/-- An edit whose id the record in flight does not carry stays pending. -/
theorem invInFlight_edit_of_new {s : State V Id} {e : Edit V} {flight : InFlight V Id}
    (hs : InvInFlight s flight) (he : HarmlessEdit hash s e)
    (hid : hash e.content ∉ flight.editIdsToIncludeInNextUpdate) :
    InvInFlight (s.applyEdit hash e) flight := by
  have hleft : State.remaining (s.applyEdit hash e).pendingEditProps
      flight.editIdsToIncludeInNextUpdate =
      State.remaining s.pendingEditProps flight.editIdsToIncludeInNextUpdate ++
        [⟨hash e.content, e⟩] := remaining_concat_of_not_mem hid
  have hcarried : State.carried (s.applyEdit hash e).pendingEditProps
      flight.editIdsToIncludeInNextUpdate =
      State.carried s.pendingEditProps flight.editIdsToIncludeInNextUpdate :=
    carried_concat_of_not_mem hid
  refine ⟨?_, ?_, fun t ht => ?_⟩
  · rw [hleft]
    exact carries_concat hs.carries fun _ _ _ => rfl
  · rw [hleft]
    exact topicIsLast_concat hs.topic_is_last he.topic_given
  · rw [recordPublished_topic, hleft, hcarried, pendingProps_concat, topic_applyEdit he]
    rw [lastAccepted_applyEdit] at ht
    cases htopic : e.fields .pubsubTopic with
    | some topic =>
      rw [htopic, Option.some_or, Option.some.injEq] at ht
      rw [Option.some_or, Option.getD_some, ht]
    | none =>
      rw [htopic, Option.none_or] at ht
      rw [Option.none_or, Option.getD_none]
      exact hs.topic t ht

/-- An edit whose id the record in flight carries is removed with the edit it equals; it is
harmless because it sets nothing to a new value. -/
theorem invInFlight_edit_of_same_id {s : State V Id} {e : Edit V} {flight : InFlight V Id}
    (hs : InvInFlight s flight) (he : HarmlessEdit hash s e) (hcycle : s.cycle = some flight)
    (hid : hash e.content ∈ flight.editIdsToIncludeInNextUpdate) :
    InvInFlight (s.applyEdit hash e) flight := by
  have hsame : ∀ f, (s.applyEdit hash e).lastAccepted f = s.lastAccepted f := by
    intro f
    rw [lastAccepted_applyEdit]
    cases hf : e.fields f with
    | none => rw [Option.none_or]
    | some v => rw [Option.some_or, he.same_id flight hcycle hid f v hf]
  have hleft : State.remaining (s.applyEdit hash e).pendingEditProps
      flight.editIdsToIncludeInNextUpdate =
      State.remaining s.pendingEditProps flight.editIdsToIncludeInNextUpdate :=
    remaining_concat_of_mem hid
  have hcarried : State.carried (s.applyEdit hash e).pendingEditProps
      flight.editIdsToIncludeInNextUpdate =
      State.carried s.pendingEditProps flight.editIdsToIncludeInNextUpdate ++
        [⟨hash e.content, e⟩] := carried_concat_of_mem hid
  refine ⟨fun f v hf hlast => ?_, fun t ht => ?_, fun t ht => ?_⟩
  · rw [hsame] at hlast
    rw [hleft]
    exact hs.carries f v hf hlast
  · rw [hleft] at ht
    rw [hsame]
    exact hs.topic_is_last t ht
  · rw [hsame] at ht
    have hbefore := hs.topic t ht
    rw [recordPublished_topic] at hbefore ⊢
    rw [hleft, hcarried, lastTopic_concat, topic_applyEdit he]
    cases htopic : e.fields .pubsubTopic with
    | none =>
      rw [Option.join_none, Option.none_or, Option.getD_none]
      exact hbefore
    | some topic =>
      -- the topic the edit gives is the last accepted one, `some t`
      have hlast := he.same_id flight hcycle hid .pubsubTopic topic htopic
      rw [ht, Option.some.injEq] at hlast
      subst hlast
      rw [Option.join_some, Option.some_or]
      cases hprops : State.pendingProps
          (State.remaining s.pendingEditProps flight.editIdsToIncludeInNextUpdate)
          .pubsubTopic with
      | some v =>
        rw [hprops, Option.getD_some] at hbefore
        rw [Option.getD_some, hbefore]
      | none =>
        rw [hprops, Option.getD_none] at hbefore
        rw [Option.getD_none]
        cases hrecord : flight.record .pubsubTopic with
        | none => rw [Option.none_or, Option.some_or]
        | some v =>
          rw [hrecord, Option.some_or] at hbefore
          rw [Option.some_or, hbefore]

omit [DecidableEq Id] in
theorem lastSettings_applyEdit (s : State V Id) (e : Edit V) :
    (s.applyEdit hash e).lastSettings = e.settings.or s.lastSettings := by
  rw [State.lastSettings, State.applyEdit, List.filterMap_append, List.getLast?_append,
    State.lastSettings]
  cases h : e.settings <;> simp [h]

/-- **An edit** keeps the invariant. -/
theorem inv_edit {s : State V Id} {e : Edit V} (hs : Inv s) (he : HarmlessEdit hash s e) :
    Inv (s.applyEdit hash e) where
  topic_given := by
    rw [lastAccepted_applyEdit]
    cases htopic : e.fields .pubsubTopic with
    | none =>
      rw [Option.none_or]
      exact hs.topic_given
    | some topic =>
      rw [Option.some_or, ← htopic]
      exact he.topic_given
  settings := by
    intro settings hlast
    rw [lastSettings_applyEdit] at hlast
    rw [State.applyEdit]
    cases hsettings : e.settings with
    | none =>
      rw [hsettings, Option.none_or] at hlast
      exact hs.settings settings hlast
    | some settings' =>
      rw [hsettings, Option.some_or, Option.some.injEq] at hlast
      exact hlast
  carries := by
    cases hraw : s.raw with
    | none =>
      refine carries_concat hs.carries fun f hf hnone => ?_
      rw [instanceProps_applyEdit hf, hraw, hnone, Option.getD_none, Option.getD_none]
    | some raw =>
      refine carries_concat (hs.raw_carries raw hraw) fun f hf hnone => ?_
      rw [instanceProps_applyEdit hf, hraw, hnone, Option.getD_none, Option.getD_some]
  raw_carries := by
    intro raw' hraw'
    obtain ⟨raw, hraw, rfl⟩ := Option.map_eq_some_iff.1 hraw'
    exact carries_concat (hs.raw_carries raw hraw) fun f _ hnone => assign_of_none hnone
  topic := by
    intro t hlast
    rw [lastAccepted_applyEdit] at hlast
    rw [topic_applyEdit he]
    cases htopic : e.fields .pubsubTopic with
    | none =>
      rw [htopic, Option.none_or] at hlast
      exact hs.topic t hlast
    | some topic =>
      rw [htopic, Option.some_or, Option.some.injEq] at hlast
      exact hlast
  topic_is_last := topicIsLast_concat hs.topic_is_last he.topic_given
  in_flight := by
    intro flight hcycle
    by_cases hid : hash e.content ∈ flight.editIdsToIncludeInNextUpdate
    · exact invInFlight_edit_of_same_id (hs.in_flight flight hcycle) he hcycle hid
    · exact invInFlight_edit_of_new (hs.in_flight flight hcycle) he hid

/-- **The snapshot**: the next record has every last accepted value, and none of the pending edits
remains beside it. -/
theorem inv_calculateNextCommunityRecord {s : State V Id} (hs : Inv s) :
    Inv { s with cycle := some (s.calculateNextCommunityRecord signerAddress) } where
  __ := hs
  in_flight := by
    intro flight hflight
    cases hflight
    have hleft : State.remaining s.pendingEditProps
        (s.calculateNextCommunityRecord signerAddress).editIdsToIncludeInNextUpdate = [] :=
      remaining_self s.pendingEditProps
    refine ⟨fun f v hf hlast => ?_, fun t ht => ?_, fun t hlast => ?_⟩
    · rw [hleft]
      show (s.calculateNextCommunityRecord signerAddress).record f = v
      simp only [State.calculateNextCommunityRecord, hf, if_false]
      exact hs.carries f v hf hlast
    · rw [hleft] at ht
      cases ht
    · replace hlast : s.lastAccepted .pubsubTopic = some (some t) := hlast
      have htopic := hs.topic t hlast
      rw [recordPublished_topic, hleft]
      show ((s.calculateNextCommunityRecord signerAddress).record .pubsubTopic).or
        ((State.lastTopic (State.carried s.pendingEditProps
          (s.pendingEditProps.map PendingEdit.editId))).or (s.instanceProps .pubsubTopic)) = some t
      simp only [State.calculateNextCommunityRecord, if_true, State.challengeExchangePubsubTopic,
        carried_self, htopic]
      split
      · cases hpending : State.lastTopic s.pendingEditProps with
        | none => rfl
        | some topic =>
          have hsame := hs.topic_is_last topic hpending
          rw [hlast, Option.some.injEq] at hsame
          rw [hsame]
          rfl
      · rfl

/-- **The publish**: what remains pending is what the record does not carry. -/
theorem inv_recordPublished {s : State V Id} {flight : InFlight V Id} (hs : Inv s)
    (hcycle : s.cycle = some flight) : Inv (s.recordPublished flight) where
  __ := hs
  carries := by
    intro f v hf hlast
    have hrecord := (hs.in_flight flight hcycle).carries f v hf hlast
    rw [recordPublished_instanceProps, assign_assign]
    simp only [assign, State.initCommunityIpfsProps, hf, if_false] at hrecord ⊢
    exact hrecord
  raw_carries := by
    intro raw hraw
    cases hraw
    exact (hs.in_flight flight hcycle).carries
  topic := (hs.in_flight flight hcycle).topic
  topic_is_last := (hs.in_flight flight hcycle).topic_is_last
  in_flight := fun _ hnone => by cases hnone

/-- **One step** keeps the invariant. -/
theorem inv_step {s s' : State V Id} {a : Action V} (hs : Inv s) (hok : Harmless hash s a)
    (hstep : step hash signerAddress s a = some s') : Inv s' := by
  cases a with
  | edit e =>
    cases hstep
    exact inv_edit hs hok
  | calculateNextCommunityRecord =>
    simp only [step] at hstep
    split at hstep <;> cases hstep
    exact inv_calculateNextCommunityRecord hs
  | recordPublished =>
    obtain ⟨flight, hcycle, rfl⟩ := Option.map_eq_some_iff.1 hstep
    exact inv_recordPublished hs hcycle
  | cycleFails =>
    obtain ⟨flight, hcycle, rfl⟩ := Option.map_eq_some_iff.1 hstep
    exact ⟨hs.topic_given, hs.settings, hs.carries, hs.raw_carries, hs.topic, hs.topic_is_last,
      fun _ hnone => by cases hnone⟩

/-- A running community before its first edit. -/
def Fresh (s : State V Id) : Prop :=
  s.cycle = none ∧ s.pendingEditProps = [] ∧ s.accepted = []

theorem inv_of_fresh {s : State V Id} (h : Fresh s) : Inv s := by
  obtain ⟨hcycle, hpending, haccepted⟩ := h
  have hlast : ∀ f, s.lastAccepted f = none := by
    intro f
    rw [State.lastAccepted, haccepted]
    rfl
  refine ⟨?_, ?_, ?_, ?_, ?_, ?_, ?_⟩
  · rw [hlast]
    exact fun hnone => by cases hnone
  · intro settings hsettings
    rw [State.lastSettings, haccepted] at hsettings
    cases hsettings
  · intro f v _ hsome
    rw [hlast] at hsome
    cases hsome
  · intro raw _ f v _ hsome
    rw [hlast] at hsome
    cases hsome
  · intro t hsome
    rw [hlast] at hsome
    cases hsome
  · intro t htopic
    rw [hpending] at htopic
    cases htopic
  · intro flight hflight
    rw [hcycle] at hflight
    cases hflight

/-- A record published with no edit since its snapshot has the last accepted value of every
field, and so has the instance. -/
theorem editsPublished_of_inv {s s₁ t : State V Id} (hs : Inv s)
    (hsnapshot : step hash signerAddress s .calculateNextCommunityRecord = some s₁)
    (hpublish : step hash signerAddress s₁ .recordPublished = some t) : EditsPublished t := by
  simp only [step] at hsnapshot
  split at hsnapshot <;> cases hsnapshot
  cases hpublish
  have hbuilt : Inv { s with cycle := some (s.calculateNextCommunityRecord signerAddress) } :=
    inv_calculateNextCommunityRecord hs
  have hinv := inv_recordPublished hbuilt rfl
  have hleft : State.remaining s.pendingEditProps
      (s.calculateNextCommunityRecord signerAddress).editIdsToIncludeInNextUpdate = [] :=
    remaining_self s.pendingEditProps
  refine ⟨hinv.settings, _, rfl, fun f v hlast => ?_⟩
  by_cases hf : f = .pubsubTopic
  · subst hf
    cases v with
    | none => exact absurd hlast hs.topic_given
    | some topic =>
      refine ⟨hinv.topic topic hlast, ?_⟩
      have htopic : s.instanceProps .pubsubTopic = some topic := hs.topic topic hlast
      simp only [State.calculateNextCommunityRecord, if_true, State.challengeExchangePubsubTopic,
        htopic, Option.getD_some, true_and]
      rfl
  · have hrecord : (s.calculateNextCommunityRecord signerAddress).record f = v := by
      simp only [State.calculateNextCommunityRecord, hf, if_false]
      exact hs.carries f v hf hlast
    refine ⟨?_, ?_⟩
    · have hinstance := hinv.carries f v hf hlast
      simp only [State.recordPublished, hleft] at hinstance ⊢
      exact hinstance
    · rw [hrecord]
      simp only [hf, false_and, if_false]

/-- **No harmless edit is lost.**  In every run whose edits are all accepted without harm, a cycle
that then runs with no further edit publishes a record with the last accepted value of every field
and leaves the instance with it. -/
theorem edits_survive {s s₁ s₂ t : State V Id} {as : List (Action V)} (hs : Fresh s)
    (hrun : Run (step hash signerAddress) (Harmless hash) s as s₁)
    (hsnapshot : step hash signerAddress s₁ .calculateNextCommunityRecord = some s₂)
    (hpublish : step hash signerAddress s₂ .recordPublished = some t) : EditsPublished t :=
  editsPublished_of_inv
    (hrun.invariant (fun _ _ _ hinv hok hstep => inv_step hinv hok hstep) (inv_of_fresh hs))
    hsnapshot hpublish

end Steps

/-! ## One community, one title -/

/-- An edit of the title alone. -/
def setTitle (title : String) : Edit String where
  fields := fun f => if f = .title then some (some title) else none
  settings := none

/-- A running community whose ids are the contents themselves. -/
def titled : State String (List (Field × String) × Option (Settings String)) where
  instanceProps := fun f => if f = .pubsubTopic then some "topic" else none
  settings := ⟨false, ""⟩
  raw := some fun f => if f = .pubsubTopic then some "topic" else none
  pendingEditProps := []
  cycle := none
  published := none
  accepted := []

theorem titled_fresh : Fresh titled := ⟨rfl, rfl, rfl⟩

/-- Two edits, the second while the record with the first is in flight. -/
theorem title_survives :
    ∃ t : State String (List (Field × String) × Option (Settings String)),
      t.lastAccepted .title = some (some "B") ∧ EditsPublished t := by
  obtain ⟨s₁, hs₁⟩ : ∃ s₁, exec (step id "signer") titled
      [.edit (setTitle "A"), .calculateNextCommunityRecord, .edit (setTitle "B"),
        .recordPublished] = some s₁ := ⟨_, rfl⟩
  have hrun : Run (step id "signer") (Harmless id) titled
      [.edit (setTitle "A"), .calculateNextCommunityRecord, .edit (setTitle "B"),
        .recordPublished] s₁ := by
    cases hs₁
    refine .cons ⟨by decide, ?_, ?_⟩ rfl (.cons trivial rfl (.cons ⟨by decide, ?_, ?_⟩ rfl
      (.cons trivial rfl (.nil _))))
    · exact fun flight hflight => by cases hflight
    · exact fun _ raw topic hraw htopic => by cases hraw; exact htopic
    · rintro flight hflight hid
      cases hflight
      exact absurd hid (by decide)
    · exact fun _ raw topic hraw htopic => by cases hraw; exact htopic
  obtain ⟨s₂, hs₂⟩ : ∃ s₂, step id "signer" s₁ .calculateNextCommunityRecord = some s₂ := by
    cases hs₁
    exact ⟨_, rfl⟩
  obtain ⟨t, ht⟩ : ∃ t, step id "signer" s₂ .recordPublished = some t := by
    cases hs₁
    cases hs₂
    exact ⟨_, rfl⟩
  refine ⟨t, ?_, edits_survive titled_fresh hrun hs₂ ht⟩
  cases hs₁
  cases hs₂
  cases ht
  decide

/-- **An edit that goes back can be lost** (A, B, A): the second `A` arrives while the record with
the first one is in flight, shares its id and is removed with it, and the next record carries
`B`. -/
theorem edit_lost_by_same_id :
    ¬ ∀ (s s₁ s₂ t : State String (List (Field × String) × Option (Settings String)))
        (as : List (Action String)), Fresh s → Run (step id "signer") anyStep s as s₁ →
      step id "signer" s₁ .calculateNextCommunityRecord = some s₂ →
      step id "signer" s₂ .recordPublished = some t → EditsPublished t := by
  intro h
  obtain ⟨s₁, hs₁⟩ : ∃ s₁, exec (step id "signer") titled
      [.edit (setTitle "A"), .calculateNextCommunityRecord, .edit (setTitle "B"),
        .edit (setTitle "A"), .recordPublished] = some s₁ := ⟨_, rfl⟩
  obtain ⟨s₂, hs₂⟩ : ∃ s₂, step id "signer" s₁ .calculateNextCommunityRecord = some s₂ := by
    cases hs₁
    exact ⟨_, rfl⟩
  obtain ⟨t, ht⟩ : ∃ t, step id "signer" s₂ .recordPublished = some t := by
    cases hs₁
    cases hs₂
    exact ⟨_, rfl⟩
  obtain ⟨-, record, -, hfields⟩ := h titled s₁ s₂ t _ titled_fresh (Run.of_exec hs₁) hs₂ ht
  have hlast : t.lastAccepted .title = some (some "A") := by
    cases hs₁
    cases hs₂
    cases ht
    decide
  have htitle := (hfields .title (some "A") hlast).1
  cases hs₁
  cases hs₂
  cases ht
  exact absurd htitle (by decide)

end PendingEdits
end Pkc

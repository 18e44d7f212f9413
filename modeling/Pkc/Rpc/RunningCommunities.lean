import Pkc.Rpc.StartedCommunities

/-!
# The registry and the communities that run

* `ok_step` and `rowsOk_step` keep the two invariants in every step that is `Sound`: nothing joins a
  community that is being stopped, an auto-start finds no entry and no later stop, what a stop or a
  delete removes is what it has stopped, and a rename does not meet another operation on its
  community.
* `registry_agrees` is what they give when no handler is in flight; `not_registry_agrees` is a run
  in which the auto-start drops the entry of a community that a client has started.
-/

set_option autoImplicit false

namespace Pkc
namespace Rpc
namespace StartedCommunities

open Runs Tasks

/-! ## What the registry relies on -/

section Sound

variable {A C I T : Type} [DecidableEq A]

/-- A handler that stops or renames the community is in flight. -/
def Handler.Stops (handler : Handler A I) (a : A) (i : I) : Prop :=
  match handler with
  | .stopping a' i' | .deleting a' i' | .removing _ a' i' => a' = a ∨ i' = i
  | .stoppingToRename _ j _ | .moving _ j _ | .restarting _ j | .restoring j => j = i
  | _ => False

/-- No other community is stored under the address. -/
def State.Owns (s : State A C I T) (a : A) (c : C) : Prop := ∀ c', s.files a = some c' → c' = c

/-- An edit that ends with the community at the address `b` finds it filed there, or moves a row
that is its own. -/
def State.EndsInPlace (s : State A C I T) (config : Config C I) (edit : Edit A I) (b : A) : Prop :=
  b ≠ edit.address →
    (edit.isStarted = true → ∀ a, s.entry a = some (.community edit.community) → a = b) ∧
      (edit.isStarted = false → s.Owns edit.address (config.identity edit.community) ∧
        s.Owns b (config.identity edit.community))

def Sound (config : Config C I) (s : State A C I T) : Event A I T → Prop
  | .internalStartCommunity t => ∀ a, s.handlers t = some (.queued a) → s.entry a = none
  | .polled t => ∀ a i, s.handlers t = some (.polling .start a) →
      s.entry a = some (.community i) → ∀ t' handler, s.handlers t' = some handler →
        ¬ handler.Stops a i
  | .started t => ∀ operation a i, s.handlers t = some (.awaitingStart operation a i) →
      s.files a = some (config.identity i) ∧ s.Settled config (config.identity i) ∧
        (operation ≠ .start → s.last (config.identity i) ≠ some .stop ∧
          s.last (config.identity i) ≠ some .delete)
  | .stopped t resolves => ∀ a i, s.handlers t = some (.stopping a i) → s.Running config i →
      resolves = true ∧ s.entry a = some (.community i)
  | .deleted t resolves => ∀ a i j, s.handlers t = some (.deleting a i) →
      s.started (config.identity i) = some j → resolves = true ∧ s.entry a = some (.community j)
  | .removed t => ∀ deletes a i, s.handlers t = some (.removing deletes a i) →
      s.started (config.identity i) = none ∧ s.Settled config (config.identity i) ∧
        s.Owns a (config.identity i) ∧
          (deletes = false → ∀ b, s.files b = some (config.identity i) → b = a) ∧
            ∀ entry, s.entry a = some entry →
              ∃ j, entry = .community j ∧ ¬ s.Running config j ∧ ¬ s.Renaming j
  | .beginEdit t newAddress => ∀ edit, s.handlers t = some (.editing edit) →
      match newAddress, s.started (config.identity edit.community) with
      | none, none => ∀ b, s.address edit.community = some b → s.EndsInPlace config edit b
      | none, some j => (edit.community ≠ j → ∀ a, s.entry a ≠ some (.community edit.community)) ∧
          ∀ b, s.address j = some b → s.EndsInPlace config edit b
      | some _, none => True
      | some _, some j => s.Settled config (config.identity j)
  | .storedEdited t resolves => resolves = true → ∀ edit newAddress,
      s.handlers t = some (.editingStored edit newAddress) →
        s.address edit.community = some edit.address ∧
          ∀ a, s.entry a ≠ some (.community edit.community)
  | .renameStopped _ resolves => resolves = true
  | .restarted t resolves => resolves = true ∧ ∀ edit j b,
      s.handlers t = some (.restarting edit j) → s.address j = some b →
        (s.entry b = none ∨ s.entry b = some (.community j)) ∧
          (∀ a, s.entry a = some (.community j) →
            s.Owns a (config.identity j) ∧ s.Owns b (config.identity j)) ∧
          (edit.community ≠ j → ∀ a, s.entry a ≠ some (.community edit.community)) ∧
          (edit.isStarted = false → s.Owns edit.address (config.identity edit.community) ∧
            s.Owns b (config.identity edit.community))
  | .boot .. | .filter _ | .startedCommunitySubscribe .. | .startCommunity .. | .checkStarted _
  | .stopCommunity .. | .editCommunity .. | .deleteCommunity .. | .created .. | .createRejected ..
  | .startRejected .. | .editRejected _ | .moved .. => True

end Sound

/-! ## The entries -/

section Entries

variable {A C I T : Type} [DecidableEq A] {config : Config C I} {s : State A C I T} {t : T} {a : A}
  {i : I}

theorem ok_initial {rows : A → Option RpcCommunityState} {files : A → Option C} :
    Ok config ({ communityStates := rows, files := files } : State A C I T) := by
  constructor <;> simp [State.entry, State.Running]

theorem Ok.not_awaiting (h : Ok config s) {handler : Handler A I}
    (hhandler : s.handlers t = some handler) (hmentions : handler.Mentions i)
    (hnot : ∀ operation a, handler ≠ .awaitingStart operation a i) :
    ∀ t' operation a, s.handlers t' ≠ some (.awaitingStart operation a i) := by
  intro t' operation a hawaiting
  by_cases heq : t = t'
  · subst heq
    exact hnot operation a (Option.some.inj (hhandler.symm.trans hawaiting))
  · exact (h.awaiting t' operation a i hawaiting).2.2 t handler heq hhandler hmentions

theorem Ok.not_awaiting_of_filed (h : Ok config s) (ha : s.entry a = some (.community i)) :
    ∀ t' operation b, s.handlers t' ≠ some (.awaitingStart operation b i) :=
  fun t' operation b hawaiting => (h.awaiting t' operation b i hawaiting).2.1 a ha

theorem Ok.mentioned (h : Ok config s) {handler : Handler A I}
    (hhandler : s.handlers t = some handler) (hmentions : handler.Mentions i) :
    s.address i ≠ none := fun hi => (h.fresh i hi).2 t handler hhandler hmentions

variable [DecidableEq T]

/-- A handler that mentions no instance. -/
theorem Ok.goesPlain (new : Option (Handler A I)) (h : Ok config s)
    (hold : ∀ old, s.handlers t = some old → old.Plain)
    (hnew : ∀ handler, new = some handler → handler.Plain ∧ ∀ i, ¬ handler.Mentions i) :
    Ok config (s.setHandler t new) :=
  h.setHandler (.of_plain hold (fun handler heq => (hnew handler heq).1)
    fun handler i heq hmentions => absurd hmentions ((hnew handler heq).2 i))

/-- A handler that goes on with an instance that is filed. -/
theorem Ok.goesFiled {new : Handler A I} (h : Ok config s)
    (hold : ∀ old, s.handlers t = some old → old.Plain) (hnew : new.Plain)
    (hmentions : ∀ j, new.Mentions j → j = i) (ha : s.entry a = some (.community i)) :
    Ok config (s.setHandler t (some new)) := by
  refine h.setHandler (.of_plain hold (fun handler heq => ?_) fun handler j heq hj => ?_)
  · exact Option.some.inj heq ▸ hnew
  · cases heq
    obtain rfl := hmentions j hj
    exact ⟨h.address_ne_none_of_filed ha,
      fun t' operation b _ => h.not_awaiting_of_filed ha t' operation b⟩

/-- A handler that goes on with the instance it has. -/
theorem Ok.goesOn {old new : Handler A I} (h : Ok config s) (hhandler : s.handlers t = some old)
    (hold : old.Plain) (hnew : new.Plain) (hmentions : ∀ j, new.Mentions j → old.Mentions j) :
    Ok config (s.setHandler t (some new)) := by
  refine h.setHandler (.of_plain (fun old' hold' => ?_) (fun handler heq => ?_)
    fun handler j heq hj => ?_)
  · exact Option.some.inj (hhandler.symm.trans hold') ▸ hold
  · exact Option.some.inj heq ▸ hnew
  · cases heq
    refine ⟨h.mentioned hhandler (hmentions j hj), fun t' operation b _ => ?_⟩
    refine h.not_awaiting hhandler (hmentions j hj) ?_ t' operation b
    rintro operation a rfl
    exact hold

variable [DecidableEq C] [DecidableEq I]

omit [DecidableEq T] in
theorem fileUnderItsAddress_setStarted {c : C} {started : Option I} {j : I} :
    (s.setStarted c started).fileUnderItsAddress j =
      (s.fileUnderItsAddress j).setStarted c started := by
  have hentry : ∀ b, (s.setStarted c started).entry b = s.entry b := fun _ => rfl
  rw [State.fileUnderItsAddress, State.fileUnderItsAddress,
    show (s.setStarted c started).address j = s.address j from rfl]
  cases s.address j with
  | none => rfl
  | some b =>
    dsimp only
    rw [hentry]
    by_cases hb : s.entry b = some (.community j)
    · rw [if_pos hb, if_pos hb]
    · rw [if_neg hb, if_neg hb,
        show (s.setStarted c started).startedCommunities = s.startedCommunities from rfl]
      cases Dictionary.findKey s.startedCommunities fun entry => entry = .community j with
      | none => rfl
      | some a =>
        dsimp only
        cases hrow : s.communityStates a with
        | none =>
          simp only [State.moveCommunityState, State.deleteEntry, State.setEntry, State.setStarted,
            hrow]
        | some row =>
          simp only [State.moveCommunityState, State.deleteEntry, State.setEntry, State.setStarted,
            hrow]
          split <;> rfl

theorem Ok.endEdit {edit : Edit A I} (h : Ok config (s.setHandler t none))
    (hends : ∀ b, s.address edit.community = some b → b ≠ edit.address → edit.isStarted = true →
      ∀ a, s.entry a = some (.community edit.community) → a = b) :
    Ok config (s.endEdit config t edit) := by
  have hok : Ok config ((s.setHandler t none).complete (config.identity edit.community) .edit) :=
    { h with }
  rw [State.endEdit]
  split
  · exact hok
  · rename_i b haddress
    split
    · exact hok
    · rename_i hne
      split
      · rename_i hstarted
        rcases fileUnderItsAddress_cases (s := (s.setHandler t none).complete
          (config.identity edit.community) .edit) haddress with ⟨-, hsame⟩ | ⟨a, ha, hab, -⟩
        · rw [hsame]
          exact hok
        · exact absurd (hends b haddress hne hstarted a ha) hab
      · exact hok.moveCommunityState

/-- The community is filed under its new address, and runs there again. -/
theorem Ok.restarted {edit : Edit A I} {j : I} {b : A} (h : Ok config s)
    (hhandler : s.handlers t = some (.restarting edit j)) (haddress : s.address j = some b)
    (hb : s.entry b = none ∨ s.entry b = some (.community j)) :
    Ok config (((s.setStarted (config.identity j) (some j)).fileUnderItsAddress j).setHandler t
      none) ∧ ∀ a, (s.fileUnderItsAddress j).entry a = some (.community j) → a = b := by
  have hrenaming : s.Renaming j := ⟨t, _, hhandler, rfl⟩
  have hfiled : (s.fileUnderItsAddress j).entry b = some (.community j) ∧
      (s.fileUnderItsAddress j).address j = some b ∧
        (s.fileUnderItsAddress j).handlers t = some (.restarting edit j) := by
    rcases fileUnderItsAddress_cases haddress with ⟨hfiled, hsame⟩ | ⟨a, ha, hne, hfile⟩
    · rw [hsame]
      obtain ⟨-, -, a, ha, -⟩ := h.renames t _ j hhandler rfl
      exact ⟨hfiled.resolve_right fun hunfiled => hunfiled a ha, haddress, hhandler⟩
    · obtain ⟨rows, hrows⟩ := moveCommunityState_eq (s :=
        (s.setEntry b (.community j)).deleteEntry a) a b
      rw [hfile, hrows]
      refine ⟨?_, haddress, hhandler⟩
      change ((s.setEntry b (.community j)).deleteEntry a).entry b = _
      rw [entry_deleteEntry, if_neg hne.symm, entry_setEntry, if_pos rfl]
  have hok := h.fileUnderItsAddress haddress hb hrenaming
  refine ⟨?_, fun a ha => hok.once a b j ha hfiled.1⟩
  rw [fileUnderItsAddress_setStarted]
  exact hok.resume hfiled.2.2 rfl trivial hfiled.2.1 hfiled.1

omit [DecidableEq C] [DecidableEq I] in
theorem Ok.failStart {operation : Operation} {retries : Bool} {old : Handler A I}
    (h : Ok config s) (hold : s.handlers t = some old) (hstarts : old.Starts a)
    (hrenames : ∀ i, ¬ old.Renames i) (hremoving : ∀ deletes a i, old ≠ .removing deletes a i) :
    Ok config (s.failStart t operation a retries) := by
  have hok := h.dropPending hold hstarts hrenames hremoving
  rw [State.failStart]
  split
  · have hqueued := hok.goesPlain (t := t) (some (.queued a))
      (fun old hnone => by cases (Function.update_self ..).symm.trans hnone) (by
        rintro handler ⟨⟩
        exact ⟨trivial, fun i => id⟩)
    rwa [State.setHandler, State.setHandler, Function.update_idem] at hqueued
  · exact hok

omit [DecidableEq C] in
/-- The handler of an instance that was created. -/
theorem Ok.created {operation : Operation} {new : Handler A I} (h : Ok config s)
    (hhandler : s.handlers t = some (.creating operation a)) (haddress : s.address i = none)
    (hmentions : ∀ j, new.Mentions j → j = i)
    (hnew : (operation = .edit ∨ operation = .delete) ∧ new.Plain ∨
      (operation ≠ .edit ∧ operation ≠ .delete) ∧ new = .awaitingStart operation a i) :
    Ok config ((s.setAddress i (some a)).setHandler t (some new)) := by
  obtain ⟨hunfiled, hunmentioned⟩ := h.fresh i haddress
  have hnot : ∀ t' operation a, s.handlers t' ≠ some (.awaitingStart operation a i) :=
    fun t' operation a hawaiting => hunmentioned t' _ hawaiting rfl
  have hok := h.setAddress (b := a) hunfiled hnot
  have hnow : (s.setAddress i (some a)).address i = some a := Function.update_self ..
  rcases hnew with ⟨hoperation, hplain⟩ | ⟨hoperation, rfl⟩
  · refine hok.setHandler (.of_plain (fun old hold => ?_) (fun handler heq => ?_)
      fun handler j heq hj => ?_)
    · cases hhandler.symm.trans hold
      exact hoperation
    · exact Option.some.inj heq ▸ hplain
    · cases heq
      obtain rfl := hmentions j hj
      exact ⟨by simp [hnow], fun t' operation a _ => hnot t' operation a⟩
  · refine hok.setHandler ?_
    constructor
    · intro b
      constructor
      · rintro ⟨old, hold, hstarts⟩
        cases hhandler.symm.trans hold
        exact ⟨_, rfl, hstarts.1⟩
      · rintro ⟨handler, ⟨⟩, hstarts⟩
        exact ⟨_, hhandler, hstarts, hoperation⟩
    · intro old j hold hj
      cases hhandler.symm.trans hold
      exact hj.elim
    · intro deletes b j hold
      cases hhandler.symm.trans hold
    · rintro handler j ⟨⟩ ⟨⟩
      exact ⟨by simp [hnow], fun t' operation a _ => hnot t' operation a⟩
    · rintro operation' b j ⟨⟩
      exact ⟨hnow, hunfiled, fun t' handler _ hother => hunmentioned t' handler hother⟩
    · rintro handler j ⟨⟩ hj
      exact hj.elim
    · rintro b j ⟨⟩

/-- A `stop()` that has resolved. -/
theorem Ok.stopped (h : Ok config s) (hhandler : s.handlers t = some (.stopping a i))
    (hfiled : s.Running config i → s.entry a = some (.community i)) :
    Ok config ((if s.started (config.identity i) = some i then
      s.setStarted (config.identity i) none else s).setHandler t (some (.removing false a i))) := by
  have hremoving : Ok config (s.setHandler t (some (.removing false a i))) := by
    refine h.setHandler ⟨fun b => ⟨?_, ?_⟩, ?_, ?_, ?_, nofun, ?_, nofun⟩
    · rintro ⟨old, hold, hstarts⟩
      cases hhandler.symm.trans hold
      cases hstarts
    · rintro ⟨handler, ⟨⟩, ⟨⟩⟩
    · intro old j hold hj
      cases hhandler.symm.trans hold
      cases hj
    · intro deletes b j hold
      cases hhandler.symm.trans hold
    · rintro handler j ⟨⟩ ⟨⟩
      exact ⟨h.mentioned hhandler rfl,
        fun t' operation b _ => h.not_awaiting hhandler rfl nofun t' operation b⟩
    · rintro handler j ⟨⟩ hj
      exact hj.elim
  split
  · rename_i hrunning
    refine hremoving.stops fun j b hj hb => ?_
    cases hrunning.symm.trans hj
    obtain rfl := h.once b a i hb (hfiled hrunning)
    exact Or.inl ⟨t, false, i, Function.update_self ..⟩
  · exact hremoving

omit [DecidableEq I] in
/-- A `delete()` that has resolved. -/
theorem Ok.deleted (h : Ok config s) (hhandler : s.handlers t = some (.deleting a i))
    (hfiled : ∀ j, s.started (config.identity i) = some j → s.entry a = some (.community j)) :
    Ok config ({ s.setStarted (config.identity i) none with
      files := fun a => if s.files a = some (config.identity i) then none else
        s.files a }.setHandler t (some (.removing true a i))) := by
  have hremoving := (h.deleteFiles (c := config.identity i)).setHandler
    (show Goes config _ t (some (.removing true a i)) by
      refine ⟨fun b => ⟨?_, ?_⟩, ?_, ?_, ?_, nofun, ?_, ?_⟩
      · rintro ⟨old, hold, hstarts⟩
        cases hhandler.symm.trans hold
        cases hstarts
      · rintro ⟨handler, ⟨⟩, ⟨⟩⟩
      · intro old j hold hj
        cases hhandler.symm.trans hold
        cases hj
      · intro deletes b j hold
        cases hhandler.symm.trans hold
      · rintro handler j ⟨⟩ ⟨⟩
        exact ⟨h.mentioned hhandler rfl,
          fun t' operation b _ => h.not_awaiting hhandler rfl nofun t' operation b⟩
      · rintro handler j ⟨⟩ hj
        exact hj.elim
      · rintro b j ⟨⟩ k hk
        dsimp only at hk
        split at hk
        · cases hk
        · contradiction)
  refine hremoving.stops (c := config.identity i) fun j b hj hb => ?_
  obtain rfl := h.once b a j hb (hfiled j hj)
  exact Or.inl ⟨t, true, i, Function.update_self ..⟩

omit [DecidableEq C] [DecidableEq I] in
/-- The rename of a running community begins. -/
theorem Ok.beginRename {edit : Edit A I} {j : I} {newAddress : A} (h : Ok config s)
    (hhandler : s.handlers t = some (.editing edit))
    (hj : s.started (config.identity edit.community) = some j)
    (hsettled : s.Settled config (config.identity j)) :
    Ok config (s.setHandler t (some (.stoppingToRename edit j newAddress))) := by
  have hidentity : config.identity j = config.identity edit.community := h.identity _ j hj
  have hrunning : s.Running config j := by
    rw [State.Running, hidentity]
    exact hj
  obtain ⟨b, haddress, hb, hfollowed⟩ := h.running j hrunning
  refine h.setHandler ⟨fun k => ⟨?_, ?_⟩, ?_, ?_, ?_, (by simp), ?_, (by simp)⟩
  · rintro ⟨old, hold, hstarts⟩
    cases hhandler.symm.trans hold
    cases hstarts
  · rintro ⟨handler, ⟨⟩, ⟨⟩⟩
  · intro old i hold hi
    cases hhandler.symm.trans hold
    cases hi
  · intro deletes k i hold
    cases hhandler.symm.trans hold
  · rintro handler i ⟨⟩ (rfl | rfl)
    · exact ⟨h.mentioned hhandler rfl,
        fun t' operation k _ => h.not_awaiting hhandler rfl (by simp) t' operation k⟩
    · exact ⟨h.address_ne_none_of_filed hb,
        fun t' operation k _ => h.not_awaiting_of_filed hb t' operation k⟩
  · rintro handler i ⟨⟩ rfl
    refine ⟨hfollowed, fun i hi => ⟨?_, id⟩, ⟨b, hb, fun _ => haddress⟩, ?_⟩
    · exact Option.some.inj (hi.symm.trans hrunning)
    · exact fun t' other j' _ hother hj' heq => hsettled j' heq ⟨t', other, hother, hj'⟩

omit [DecidableEq C] [DecidableEq I] in
/-- A rename goes on. -/
theorem Ok.renameGoes {old : Handler A I} {j : I} (new : Handler A I) (h : Ok config s)
    (hhandler : s.handlers t = some old) (hold : ∀ i, old.Renames i ↔ i = j)
    (hnew : ∀ i, new.Renames i ↔ i = j) (hmentions : ∀ i, new.Mentions i → old.Mentions i)
    (hstopped : new.HasStopped → s.started (config.identity j) = none)
    (hmoved : old.HasMoved → new.HasMoved) :
    Ok config (s.setHandler t (some new)) := by
  have hnotStarts : ∀ {handler : Handler A I} {k}, handler.Renames j → ¬ handler.Starts k := by
    intro handler k hj hk
    cases handler <;> first | exact hj | exact hk
  have hawaiting : ∀ {handler : Handler A I} {operation k i}, handler.Renames j →
      handler ≠ .awaitingStart operation k i := by
    rintro handler operation k i hj rfl
    exact hj
  have holdj : old.Renames j := (hold j).2 rfl
  have hnewj : new.Renames j := (hnew j).2 rfl
  obtain ⟨hfollowed, hstarted, b, hb, haddress⟩ := h.renames t old j hhandler holdj
  refine h.setHandler ⟨fun k => ⟨?_, ?_⟩, ?_, ?_, ?_, ?_, ?_, ?_⟩
  · rintro ⟨old', hold', hstarts⟩
    cases hhandler.symm.trans hold'
    exact absurd hstarts (hnotStarts holdj)
  · rintro ⟨handler, ⟨⟩, hstarts⟩
    exact absurd hstarts (hnotStarts hnewj)
  · intro old' i hold' hi
    cases hhandler.symm.trans hold'
    exact ⟨new, rfl, (hnew i).2 ((hold i).1 hi)⟩
  · intro deletes k i hold'
    cases hhandler.symm.trans hold'
    exact holdj
  · rintro handler i ⟨⟩ hi
    exact ⟨h.mentioned hhandler (hmentions i hi), fun t' operation k _ =>
      h.not_awaiting hhandler (hmentions i hi) (fun _ _ => hawaiting holdj) t' operation k⟩
  · rintro operation k i heq
    exact absurd (Option.some.inj heq) (hawaiting hnewj)
  · rintro handler i ⟨⟩ hi
    obtain rfl := (hnew i).1 hi
    refine ⟨hfollowed, fun i' hi' => ⟨(hstarted i' hi').1, fun hs => ?_⟩, ⟨b, hb, fun hm =>
      haddress fun hm' => hm (hmoved hm')⟩, fun t' other j' hne hother hj' heq => hne ?_⟩
    · cases (hstopped hs).symm.trans hi'
    · exact h.renamesOnce t' t other old j' i hother hhandler hj' holdj heq
  · rintro k i heq
    cases Option.some.inj heq
    exact hnewj.elim

/-- The community has stopped to be renamed. -/
theorem Ok.renameStopped {edit : Edit A I} {j : I} {newAddress : A} (h : Ok config s)
    (hhandler : s.handlers t = some (.stoppingToRename edit j newAddress)) :
    Ok config ((if s.started (config.identity j) = some j then
      s.setStarted (config.identity j) none else s).setHandler t
        (some (.moving edit j newAddress))) := by
  obtain ⟨-, hstarted, -⟩ := h.renames t _ j hhandler rfl
  split
  · rename_i hj
    refine (h.stops (c := config.identity j) fun i a hi ha => Or.inr ⟨t, _, hhandler, ?_⟩).renameGoes
      _ hhandler (j := j) (fun i => ⟨Eq.symm, Eq.symm⟩) (fun i => ⟨Eq.symm, Eq.symm⟩) (fun i => id)
      (fun _ => Function.update_self ..) False.elim
    exact Option.some.inj (hj.symm.trans hi)
  · rename_i hj
    refine h.renameGoes _ hhandler (j := j) (fun i => ⟨Eq.symm, Eq.symm⟩)
      (fun i => ⟨Eq.symm, Eq.symm⟩)
      (fun i => id) (fun _ => Option.eq_none_iff_forall_ne_some.2 fun i hi => ?_) False.elim
    obtain rfl := (hstarted i hi).1
    exact hj hi

omit [DecidableEq C] [DecidableEq T] in
/-- The address of a community that is being renamed has changed. -/
theorem Ok.setRenamedAddress {edit : Edit A I} {j : I} {b : A} (h : Ok config s)
    (hhandler : s.handlers t = some (.restarting edit j)) :
    Ok config (s.setAddress j (some b)) := by
  obtain ⟨-, hstarted, a, ha, -⟩ := h.renames t _ j hhandler rfl
  have hnotRunning : ¬ s.Running config j := fun hrunning => (hstarted j hrunning).2 trivial
  have hother : ∀ {i}, i ≠ j → (s.setAddress j (some b)).address i = s.address i :=
    fun hne => Function.update_of_ne hne _ _
  exact { h with
    filed := fun k i hk => by
      by_cases heq : i = j
      · exact Or.inr (Or.inr ⟨t, _, hhandler, heq.symm⟩)
      · rw [hother heq]
        exact h.filed k i hk
    running := fun i hi => by
      have hne : i ≠ j := fun heq => hnotRunning (heq ▸ hi)
      rw [hother hne]
      exact h.running i hi
    fresh := fun i hi => by
      have hne : i ≠ j := by
        rintro rfl
        cases hi.symm.trans (Function.update_self ..)
      exact h.fresh i ((hother hne).symm.trans hi)
    awaiting := fun t' operation k i hi => by
      have hne : i ≠ j := fun heq => h.not_awaiting_of_filed ha t' operation k (heq ▸ hi)
      rw [hother hne]
      exact h.awaiting t' operation k i hi
    renames := fun t' handler i hhandler' hi => by
      obtain ⟨hfollowed, hs, k, hk, haddress⟩ := h.renames t' handler i hhandler' hi
      refine ⟨hfollowed, hs, k, hk, fun hmoved => ?_⟩
      have hne : i ≠ j := by
        rintro rfl
        obtain rfl := h.renamesOnce t' t handler _ i i hhandler' hhandler hi rfl rfl
        cases hhandler'.symm.trans hhandler
        exact hmoved trivial
      rw [hother hne]
      exact haddress hmoved }

omit [DecidableEq C] in
theorem Ok.moved {edit : Edit A I} {j : I} {oldAddress newAddress : A} (h : Ok config s)
    (hhandler : s.handlers t = some (.moving edit j newAddress)) :
    Ok config (((s.moveFile oldAddress newAddress).setAddress j (some newAddress)).setHandler t
      (some (.restarting edit j))) := by
  obtain ⟨-, hstarted, -⟩ := h.renames t _ j hhandler rfl
  have hnone : s.started (config.identity j) = none := Option.eq_none_iff_forall_ne_some.2
    fun i hi => (hstarted i hi).2 trivial
  have hgoes := h.renameGoes (j := j) (.restarting edit j) hhandler
    (fun i => ⟨Eq.symm, Eq.symm⟩) (fun i => ⟨Eq.symm, Eq.symm⟩) (fun i => id) (fun _ => hnone)
    False.elim
  exact (hgoes.moveFile oldAddress newAddress).setRenamedAddress
    (Function.update_self ..)

/-- An edit of a community that is not started. -/
theorem Ok.storedEdited {edit : Edit A I} {newAddress oldAddress : A} (h : Ok config s)
    (hhandler : s.handlers t = some (.editingStored edit newAddress))
    (hunfiled : ∀ a, s.entry a ≠ some (.community edit.community)) :
    Ok config (((s.moveFile oldAddress newAddress).setAddress edit.community
      (some newAddress)).endEdit config t edit) := by
  have hplain := (h.goesPlain (t := t) none
    (fun old hold => by
      cases hhandler.symm.trans hold
      trivial) nofun)
  have hok := (hplain.moveFile oldAddress newAddress).setAddress
    (b := newAddress) hunfiled (fun t' operation a hawaiting =>
      h.not_awaiting hhandler rfl nofun t' operation a (handlers_setHandler_none.1 hawaiting).2)
  exact Ok.endEdit hok fun b _ _ _ a ha => absurd ha (hunfiled a)

omit [DecidableEq T] [DecidableEq C] in
/-- Filing changes the entries and the rows only. -/
theorem fileUnderItsAddress_eq {j : I} {b : A} (haddress : s.address j = some b) :
    ∃ entries rows, s.fileUnderItsAddress j =
      { s with startedCommunities := entries, communityStates := rows } := by
  rcases fileUnderItsAddress_cases haddress with ⟨-, hsame⟩ | ⟨k, -, -, hfile⟩
  · exact ⟨_, _, hsame⟩
  · obtain ⟨rows, hrows⟩ := moveCommunityState_eq (s :=
      (s.setEntry b (.community j)).deleteEntry k) k b
    exact ⟨_, rows, hfile.trans hrows⟩

omit [DecidableEq T] [DecidableEq C] in
theorem entry_fileUnderItsAddress {j : I} {b : A} (haddress : s.address j = some b)
    (ha : (s.fileUnderItsAddress j).entry a = some (.community i)) :
    i = j ∨ s.entry a = some (.community i) := by
  rcases fileUnderItsAddress_cases haddress with ⟨-, hsame⟩ | ⟨k, -, -, hfile⟩
  · exact Or.inr (hsame ▸ ha)
  · obtain ⟨rows, hrows⟩ := moveCommunityState_eq (s :=
      (s.setEntry b (.community j)).deleteEntry k) k b
    rw [hfile, hrows] at ha
    change ((s.setEntry b (.community j)).deleteEntry k).entry a = _ at ha
    rw [entry_deleteEntry] at ha
    split at ha
    · cases ha
    · rw [entry_setEntry] at ha
      split at ha
      · cases ha
        exact Or.inl rfl
      · exact Or.inr ha

theorem Ok.restartedEdit {edit : Edit A I} {j : I} {b : A} (h : Ok config s)
    (hhandler : s.handlers t = some (.restarting edit j)) (haddress : s.address j = some b)
    (hb : s.entry b = none ∨ s.entry b = some (.community j))
    (hunfiled : edit.community ≠ j → ∀ a, s.entry a ≠ some (.community edit.community)) :
    Ok config ((((s.setStarted (config.identity j) (some j)).fileUnderItsAddress j).setAddress
      edit.community (some b)).endEdit config t edit) := by
  obtain ⟨hok, honly⟩ := h.restarted hhandler haddress hb
  have hentry : ∀ a, ((s.setStarted (config.identity j) (some j)).fileUnderItsAddress j).entry a =
      (s.fileUnderItsAddress j).entry a := by
    rw [fileUnderItsAddress_setStarted]
    exact fun a => rfl
  have hkept : ((s.setStarted (config.identity j) (some j)).fileUnderItsAddress j).address =
        s.address ∧
      ((s.setStarted (config.identity j) (some j)).fileUnderItsAddress j).handlers = s.handlers := by
    obtain ⟨entries, rows, heq⟩ := fileUnderItsAddress_eq haddress
    rw [fileUnderItsAddress_setStarted, heq]
    exact ⟨rfl, rfl⟩
  by_cases heq : edit.community = j
  · subst heq
    have hsame : ((s.setStarted (config.identity edit.community)
        (some edit.community)).fileUnderItsAddress edit.community).setAddress edit.community
          (some b) = (s.setStarted (config.identity edit.community)
            (some edit.community)).fileUnderItsAddress edit.community := by
      rw [State.setAddress, hkept.1, ← haddress, Function.update_eq_self, ← hkept.1]
    rw [hsame]
    refine Ok.endEdit hok fun b' hb' _ _ a ha => ?_
    rw [hkept.1, haddress, Option.some.injEq] at hb'
    exact (honly a ((hentry a).symm.trans ha)).trans hb'
  · have hunfiled' : ∀ a, ((s.setStarted (config.identity j) (some j)).fileUnderItsAddress j).entry
        a ≠ some (.community edit.community) := fun a ha =>
      (entry_fileUnderItsAddress haddress ((hentry a).symm.trans ha)).elim heq (hunfiled heq a)
    refine Ok.endEdit (hok.setAddress (b := b) hunfiled' fun t' operation a hawaiting => ?_)
      fun b' _ _ _ a ha => absurd ha (hunfiled' a)
    have hold := (handlers_setHandler_none.1 hawaiting).2
    rw [hkept.2] at hold
    exact h.not_awaiting hhandler (Or.inl rfl) nofun t' operation a hold

omit [DecidableEq A] [DecidableEq I] [DecidableEq T] in
theorem setStarted_none_self {c : C} (hnone : s.started c = none) : s.setStarted c none = s := by
  rw [State.setStarted, ← hnone, Function.update_eq_self]

theorem ok_step (s : State A C I T) (event : Event A I T) (s' : State A C I T) (h : Ok config s)
    (hsound : Sound config s event) (hstep : step config s event = some s') : Ok config s' := by
  have hnone : ∀ {t}, ¬ ((s.handlers t).isSome = true) →
      ∀ old, s.handlers t = some old → old.Plain := by
    intro t hnot old hold
    rw [hold] at hnot
    exact absurd rfl hnot
  have hplain : ∀ {t handler}, s.handlers t = some handler → handler.Plain →
      ∀ old, s.handlers t = some old → old.Plain :=
    fun hhandler hp old hold => Option.some.inj (hhandler.symm.trans hold) ▸ hp
  have hbare : ∀ {new : Handler A I}, new.Plain → (∀ i, ¬ new.Mentions i) →
      ∀ handler, some new = some handler → handler.Plain ∧ ∀ i, ¬ handler.Mentions i :=
    fun hp hm handler heq => Option.some.inj heq ▸ ⟨hp, hm⟩
  cases event with
  | boot t a =>
    simp only [step] at hstep
    split at hstep
    · cases hstep
    · rename_i hcond
      cases hstep
      exact h.goesPlain _ (hnone (not_or.1 hcond).1) (hbare trivial fun _ => id)
  | filter t =>
    simp only [step] at hstep
    split at hstep
    · rename_i a hhandler
      split at hstep
      · cases hstep
        have hok : Ok config (s.updateCommunityState a none) := { h with }
        exact hok.goesPlain _ (hplain hhandler trivial) (by simp)
      · split at hstep <;> cases hstep
        · exact h.goesPlain _ (hplain hhandler trivial) (by simp)
        · exact h.goesPlain _ (hplain hhandler trivial) (hbare trivial fun _ => id)
    · cases hstep
  | internalStartCommunity t =>
    simp only [step] at hstep
    split at hstep
    · rename_i a hhandler
      cases hstep
      exact h.setPending (hsound a hhandler) (hplain hhandler trivial) ⟨(by simp), (by simp)⟩
    · cases hstep
  | startedCommunitySubscribe t a =>
    simp only [step] at hstep
    split at hstep
    · cases hstep
    · rename_i hcond
      split at hstep <;> cases hstep
      · exact h
      · exact h.goesPlain _ (hnone (not_or.1 hcond).1) (hbare trivial fun _ => id)
  | startCommunity t a =>
    simp only [step] at hstep
    split at hstep
    · cases hstep
    · split at hstep <;> cases hstep <;> rename_i hhandler
      · exact h.goesPlain _ (fun old hold => by cases hhandler.symm.trans hold)
          (hbare trivial fun _ => id)
      · exact h.goesPlain _ (hplain hhandler trivial) (hbare trivial fun _ => id)
  | checkStarted t =>
    simp only [step] at hstep
    split at hstep
    · rename_i a hhandler
      split at hstep <;> cases hstep
      · exact h.goesPlain _ (hplain hhandler trivial) (hbare trivial fun _ => id)
      · rename_i hentry
        exact h.setPending (Option.not_isSome_iff_eq_none.1 hentry) (hplain hhandler trivial)
          ⟨(by simp), (by simp)⟩
    · cases hstep
  | stopCommunity t a =>
    simp only [step] at hstep
    split at hstep
    · cases hstep
    · rename_i hcond
      cases hstep
      exact h.goesPlain _ (hnone (not_or.1 hcond).1) (hbare trivial fun _ => id)
  | editCommunity t a =>
    simp only [step] at hstep
    split at hstep
    · cases hstep
    · rename_i hcond
      split at hstep <;> cases hstep
      · exact h.goesPlain _ (hnone (not_or.1 hcond).1) (hbare trivial fun _ => id)
      · exact h.goesPlain _ (hnone (not_or.1 hcond).1) (hbare (Or.inl rfl) fun _ => id)
  | deleteCommunity t a =>
    simp only [step] at hstep
    split at hstep
    · cases hstep
    · rename_i hcond
      split at hstep <;> cases hstep
      · exact h.goesPlain _ (hnone (not_or.1 hcond).1) (hbare trivial fun _ => id)
      · exact h.goesPlain _ (hnone (not_or.1 hcond).1) (hbare (Or.inr rfl) fun _ => id)
  | polled t =>
    simp only [step] at hstep
    split at hstep
    · rename_i operation a hhandler
      split at hstep <;> cases hstep
      · exact h.goesFiled (hplain hhandler trivial) trivial (fun _ => Eq.symm) ‹_›
      · exact h.goesFiled (hplain hhandler trivial) trivial (fun _ => Eq.symm) ‹_›
      · exact h.goesFiled (hplain hhandler trivial) trivial (fun _ => Eq.symm) ‹_›
      · exact { h.goesPlain (t := t) none (hplain hhandler trivial) (by simp) with }
      · exact h.goesPlain _ (hplain hhandler trivial) (hbare (Or.inl rfl) fun _ => id)
      · exact h.goesPlain _ (hplain hhandler trivial) (by simp)
    · cases hstep
  | created t i =>
    simp only [step] at hstep
    split at hstep
    · rename_i operation a hhandler
      split at hstep
      · cases hstep
      · rename_i hcond
        have haddress : s.address i = none := not_not.1 (not_or.1 hcond).1
        split at hstep <;> cases hstep
        · exact h.created hhandler haddress (fun _ => Eq.symm) (Or.inl ⟨Or.inl rfl, trivial⟩)
        · exact h.created hhandler haddress (fun _ => Eq.symm) (Or.inl ⟨Or.inr rfl, trivial⟩)
        · exact h.created hhandler haddress (fun _ => Eq.symm) (Or.inr ⟨⟨‹_›, ‹_›⟩, rfl⟩)
    · cases hstep
  | createRejected t retries =>
    simp only [step] at hstep
    split at hstep
    · rename_i operation a hhandler
      split at hstep <;> cases hstep
      · exact h.goesPlain _ (hplain hhandler (Or.inl rfl)) (by simp)
      · exact h.goesPlain _ (hplain hhandler (Or.inr rfl)) (by simp)
      · exact h.failStart hhandler ⟨rfl, ‹_›, ‹_›⟩ (fun _ => id) (by simp)
    · cases hstep
  | started t =>
    simp only [step] at hstep
    split at hstep
    · rename_i operation a i hhandler
      split at hstep
      · cases hstep
      · rename_i hlock
        cases hstep
        exact h.start hhandler (Option.not_isSome_iff_eq_none.1 hlock)
          (hsound operation a i hhandler).2.1
    · cases hstep
  | startRejected t retries =>
    simp only [step] at hstep
    split at hstep
    · rename_i operation a i hhandler
      cases hstep
      exact h.failStart hhandler rfl (fun _ => id) (by simp)
    · cases hstep
  | stopped t resolves =>
    simp only [step] at hstep
    split at hstep
    · rename_i a i hhandler
      have hfiled := hsound a i hhandler
      cases hstep
      cases resolves with
      | true => exact h.stopped hhandler fun hrunning => (hfiled hrunning).2
      | false =>
        have hnot : ¬ s.started (config.identity i) = some i := fun hrunning =>
          Bool.false_ne_true (hfiled hrunning).1
        rw [if_neg hnot]
        exact h.goesPlain _ (hplain hhandler trivial) (by simp)
    · cases hstep
  | deleted t resolves =>
    simp only [step] at hstep
    split at hstep
    · rename_i a i hhandler
      have hfiled := fun j => hsound a i j hhandler
      cases resolves with
      | true =>
        cases hstep
        exact h.deleted hhandler fun j hj => (hfiled j hj).2
      | false =>
        have hnot : s.started (config.identity i) = none := Option.eq_none_iff_forall_ne_some.2
          fun j hj => Bool.false_ne_true (hfiled j hj).1
        cases hstep
        rw [setStarted_none_self hnot]
        exact h.goesPlain _ (hplain hhandler trivial) (by simp)
    · cases hstep
  | removed t =>
    simp only [step] at hstep
    split at hstep
    · rename_i deletes a i hhandler
      obtain ⟨hstopped, hsettled, -, -, hentry⟩ := hsound deletes a i hhandler
      cases hstep
      have hok := h.removeEntry hhandler hstopped hsettled hentry
      rw [State.remove]
      split
      · exact { hok with }
      · exact { hok with }
    · cases hstep
  | beginEdit t newAddress =>
    simp only [step] at hstep
    split at hstep
    · rename_i edit hhandler
      have hends := hsound edit hhandler
      split at hstep <;> cases hstep
      · rename_i hstarted
        rw [hstarted] at hends
        have hok : Ok config (s.setHandler t none) :=
          h.goesPlain _ (hplain hhandler trivial) (by simp)
        exact hok.endEdit fun b hb hne hstarted => (hends b hb hne).1 hstarted
      · rename_i j hstarted
        rw [hstarted] at hends
        have hrunning : s.Running config j := by
          rw [State.Running, h.identity _ j hstarted]
          exact hstarted
        obtain ⟨b, hb, hfiled, -⟩ := h.running j hrunning
        have hok : Ok config (s.setHandler t none) :=
          h.goesPlain _ (hplain hhandler trivial) (by simp)
        by_cases heq : edit.community = j
        · have hsame : s.setAddress edit.community (s.address j) = s := by
            rw [heq, State.setAddress, Function.update_eq_self]
          rw [hsame]
          exact hok.endEdit fun b hb hne hstarted => (hends.2 b (heq ▸ hb) hne).1 hstarted
        · rw [hb]
          have hunfiled := hends.1 heq
          refine Ok.endEdit (hok.setAddress (b := b) hunfiled fun t' operation a hawaiting => ?_)
            fun b' _ _ _ a ha => absurd ha (hunfiled a)
          exact h.not_awaiting hhandler rfl (by simp) t' operation a
            (handlers_setHandler_none.1 hawaiting).2
      · exact h.goesOn hhandler trivial trivial fun _ => id
      · rename_i j hstarted
        rw [hstarted] at hends
        exact h.beginRename hhandler hstarted hends
    · cases hstep
  | editRejected t =>
    simp only [step] at hstep
    split at hstep
    · rename_i edit hhandler
      cases hstep
      exact h.goesPlain _ (hplain hhandler trivial) (by simp)
    · cases hstep
  | storedEdited t resolves =>
    simp only [step] at hstep
    split at hstep
    · rename_i edit newAddress hhandler
      split at hstep
      · cases hstep
        exact h.goesPlain _ (hplain hhandler trivial) (by simp)
      · rename_i hresolves
        have hunfiled := (hsound (Bool.of_not_eq_false hresolves) edit newAddress hhandler).2
        split at hstep
        · cases hstep
        · split at hstep
          · cases hstep
            exact h.storedEdited hhandler hunfiled
          · cases hstep
    · cases hstep
  | renameStopped t resolves =>
    obtain rfl : resolves = true := hsound
    simp only [step, if_true] at hstep
    split at hstep
    · rename_i edit j newAddress hhandler
      cases hstep
      exact h.renameStopped hhandler
    · cases hstep
  | moved t resolves =>
    simp only [step] at hstep
    split at hstep
    · rename_i edit j newAddress hhandler
      split at hstep
      · cases hstep
        obtain ⟨-, hstarted, -⟩ := h.renames t _ j hhandler rfl
        exact h.renameGoes _ hhandler (j := j) (fun i => ⟨Eq.symm, Eq.symm⟩)
          (fun i => ⟨Eq.symm, Eq.symm⟩) (fun i => Or.inr)
          (fun _ => Option.eq_none_iff_forall_ne_some.2 fun i hi => (hstarted i hi).2 trivial)
          False.elim
      · split at hstep
        · cases hstep
        · split at hstep
          · cases hstep
            exact h.moved hhandler
          · cases hstep
    · cases hstep
  | restarted t resolves =>
    obtain ⟨rfl, hrestart⟩ := hsound
    simp only [step] at hstep
    split at hstep
    · rename_i edit j hhandler
      obtain ⟨b, hb⟩ := Option.ne_none_iff_exists'.1 (h.mentioned hhandler (Or.inr rfl))
      obtain ⟨hentry, -, hunfiled, -⟩ := hrestart edit j b hhandler hb
      have hfollowed := (h.renames t _ j hhandler rfl).1
      rw [if_neg (by simp)] at hstep
      split at hstep
      · cases hstep
      · have haddress : ((s.setStarted (config.identity j) (some j)).fileUnderItsAddress j).address j =
            some b := by
          obtain ⟨entries, rows, heq⟩ := fileUnderItsAddress_eq hb
          rw [fileUnderItsAddress_setStarted, heq]
          exact hb
        have hf : (s.setStarted (config.identity j) (some j)).followed j = true := hfollowed
        simp only [hf, if_true, haddress] at hstep
        cases hstep
        exact h.restartedEdit hhandler hb hentry hunfiled
    · rename_i j hhandler
      rw [if_neg (by simp)] at hstep
      split at hstep
      · cases hstep
      · cases hstep
        obtain ⟨-, -, b, hb, haddress⟩ := h.renames t _ j hhandler rfl
        exact h.resume hhandler rfl trivial (haddress id) hb
    · cases hstep

end Entries

/-! ## The rows -/

section Rows

variable {A C I T : Type} [DecidableEq A] {config : Config C I} {s : State A C I T} {t : T} {a : A}
  {i : I} {c : C}

omit [DecidableEq A] in
theorem rowsOk_initial {rows : A → Option RpcCommunityState} {files : A → Option C} :
    RowsOk config ({ communityStates := rows, files := files } : State A C I T) := by
  constructor <;> simp

omit [DecidableEq A] in
/-- A handler goes on, and begins no rename of a community that does not run. -/
theorem RowsOk.setHandler [DecidableEq T] {new : Option (Handler A I)} (h : RowsOk config s)
    (hnew : ∀ handler j, new = some handler → handler.Renames j →
      s.Renaming j ∨ s.started (config.identity j) ≠ none) :
    RowsOk config (s.setHandler t new) :=
  { h with
    ended := fun c hc => by
      obtain ⟨hstarted, hsettled⟩ := h.ended c hc
      refine ⟨hstarted, fun j hj hrenaming => ?_⟩
      obtain ⟨t', handler, hhandler, hrenames⟩ := hrenaming
      rcases update_eq_some.1 hhandler with ⟨-, hhandler⟩ | ⟨-, hold⟩
      · rcases hnew handler j hhandler hrenames with hrenaming | hrunning
        · exact hsettled j hj hrenaming
        · exact hrunning (hj ▸ hstarted)
      · exact hsettled j hj ⟨t', handler, hold, hrenames⟩ }

omit [DecidableEq A] in
theorem RowsOk.goesPlain [DecidableEq T] (new : Option (Handler A I)) (h : RowsOk config s)
    (hnew : ∀ handler, new = some handler → handler.Plain) : RowsOk config (s.setHandler t new) :=
  h.setHandler fun handler _ heq hrenames => absurd hrenames (hnew handler heq).not_renames

/-- The row of an address that is no stopped community's. -/
theorem RowsOk.updateCommunityState (row : Option RpcCommunityState) (h : RowsOk config s)
    (hrow : ∀ c, s.files a = some c → s.last c ≠ some .stop) :
    RowsOk config (s.updateCommunityState a row) :=
  { h with
    stopped := fun c b hc hb => by
      have hne : b ≠ a := by
        rintro rfl
        exact hrow c hb hc
      obtain ⟨row', hrow', hexplicit⟩ := h.stopped c b hc hb
      exact ⟨row', (Function.update_of_ne hne _ _).trans hrow', hexplicit⟩ }

theorem RowsOk.moveCommunityState {b : A} (h : RowsOk config s)
    (ha : ∀ c, s.files a = some c → s.last c ≠ some .stop)
    (hb : ∀ c, s.files b = some c → s.last c ≠ some .stop) :
    RowsOk config (s.moveCommunityState a b) := by
  rw [State.moveCommunityState]
  split
  · exact h
  · split
    · exact h
    · exact (h.updateCommunityState _ hb).updateCommunityState _ ha

omit [DecidableEq A] in
theorem RowsOk.complete [DecidableEq C] {operation : Operation} (h : RowsOk config s)
    (hoperation : operation ≠ .stop ∧ operation ≠ .delete) :
    RowsOk config (s.complete c operation) := by
  have hlast : ∀ {c' operation'}, operation' = .stop ∨ operation' = .delete →
      (s.complete c operation).last c' = some operation' → s.last c' = some operation' := by
    intro c' operation' hends hc'
    rcases update_eq_some.1 hc' with ⟨-, heq⟩ | ⟨-, hold⟩
    · cases heq
      exact (hends.elim hoperation.1 hoperation.2).elim
    · exact hold
  exact {
    ended := fun c' hc' => h.ended c' (hc'.imp (hlast (Or.inl rfl)) (hlast (Or.inr rfl)))
    stopped := fun c' b hc' => h.stopped c' b (hlast (Or.inl rfl) hc')
    deleted := fun c' b hc' => h.deleted c' b (hlast (Or.inr rfl) hc') }

omit [DecidableEq A] in
theorem RowsOk.stops [DecidableEq C] (h : RowsOk config s) : RowsOk config (s.setStarted c none) :=
  { h with
    ended := fun c' hc' => by
      obtain ⟨hstarted, hsettled⟩ := h.ended c' hc'
      refine ⟨?_, hsettled⟩
      rw [started_setStarted, hstarted, ite_self] }

omit [DecidableEq A] in
/-- Only a community whose last operation was not to end it runs. -/
theorem RowsOk.runs [DecidableEq C] (h : RowsOk config s)
    (hc : s.last c ≠ some .stop ∧ s.last c ≠ some .delete) :
    RowsOk config (s.setStarted c (some i)) :=
  { h with
    ended := fun c' hc' => by
      obtain ⟨hstarted, hsettled⟩ := h.ended c' hc'
      refine ⟨?_, hsettled⟩
      have hne : c' ≠ c := by
        rintro rfl
        exact hc'.elim hc.1 hc.2
      rw [started_setStarted, if_neg hne]
      exact hstarted }

theorem RowsOk.moveFile {b : A} (h : RowsOk config s)
    (hc : ∀ c, s.files a = some c → s.last c ≠ some .stop ∧ s.last c ≠ some .delete) :
    RowsOk config (s.moveFile a b) := by
  have hfiles : ∀ {k c}, (s.moveFile a b).files k = some c → s.files k = some c ∨
      s.files a = some c := by
    intro k c hk
    simp only [State.moveFile, Function.update_apply] at hk
    split at hk
    · cases hk
    · split at hk
      · exact Or.inr hk
      · exact Or.inl hk
  exact { h with
    stopped := fun c k hlast hk => by
      rcases hfiles hk with hk | ha
      · exact h.stopped c k hlast hk
      · exact absurd hlast (hc c ha).1
    deleted := fun c k hlast hk => by
      rcases hfiles hk with hk | ha
      · exact h.deleted c k hlast hk
      · exact (hc c ha).2 hlast }

variable [DecidableEq I] [DecidableEq C]

omit [DecidableEq C] in
theorem RowsOk.fileUnderItsAddress {b : A} (h : RowsOk config s) (haddress : s.address i = some b)
    (hfiled : ∀ a, s.entry a = some (.community i) →
      ∀ c, s.files a = some c ∨ s.files b = some c → s.last c ≠ some .stop) :
    RowsOk config (s.fileUnderItsAddress i) := by
  rcases fileUnderItsAddress_cases haddress with ⟨-, hsame⟩ | ⟨a, ha, -, hfile⟩
  · rw [hsame]
    exact h
  · rw [hfile]
    have hok : RowsOk config ((s.setEntry b (.community i)).deleteEntry a) := { h with }
    exact hok.moveCommunityState (fun c hc => hfiled a ha c (Or.inl hc))
      fun c hc => hfiled a ha c (Or.inr hc)

variable [DecidableEq T]

/-- The row that an edit moves is the community's own. -/
theorem RowsOk.endEdit {edit : Edit A I}
    (h : RowsOk config (s.complete (config.identity edit.community) .edit))
    (hends : ∀ b, s.address edit.community = some b → s.EndsInPlace config edit b) :
    RowsOk config (s.endEdit config t edit) := by
  have hok : RowsOk config ((s.setHandler t none).complete (config.identity edit.community) .edit) :=
    h.goesPlain (t := t) none nofun
  have hlast : ((s.setHandler t none).complete (config.identity edit.community) .edit).last
      (config.identity edit.community) = some .edit := Function.update_self ..
  have hown : ∀ {b c}, s.Owns b (config.identity edit.community) → s.files b = some c →
      ((s.setHandler t none).complete (config.identity edit.community) .edit).last c ≠
        some .stop := by
    intro b c howns hb
    rw [howns c hb, hlast]
    nofun
  rw [State.endEdit]
  split
  · exact hok
  · rename_i b haddress
    split
    · exact hok
    · rename_i hne
      obtain ⟨hfiled, howns⟩ := hends b haddress hne
      split
      · rename_i hstarted
        rcases fileUnderItsAddress_cases (s := (s.setHandler t none).complete
          (config.identity edit.community) .edit) haddress with ⟨-, hsame⟩ | ⟨a, ha, hab, -⟩
        · rw [hsame]
          exact hok
        · exact absurd (hfiled hstarted a ha) hab
      · rename_i hstarted
        obtain ⟨hold, hnew⟩ := howns (Bool.of_not_eq_true hstarted)
        exact hok.moveCommunityState (fun c hc => hown hold hc) fun c hc => hown hnew hc

omit [DecidableEq A] [DecidableEq I] [DecidableEq C] [DecidableEq T] in
theorem RowsOk.last_of_renaming {j : I} (h : RowsOk config s) (hj : s.Renaming j) :
    s.last (config.identity j) ≠ some .stop ∧ s.last (config.identity j) ≠ some .delete :=
  ⟨fun hlast => (h.ended _ (Or.inl hlast)).2 j rfl hj,
    fun hlast => (h.ended _ (Or.inr hlast)).2 j rfl hj⟩

theorem RowsOk.start {operation : Operation} (h : RowsOk config s) (haddress : s.address i = some a)
    (hfiles : s.files a = some (config.identity i))
    (hlast : operation ≠ .start → s.last (config.identity i) ≠ some .stop ∧
      s.last (config.identity i) ≠ some .delete) :
    RowsOk config ((s.start config operation a i).setHandler t none) := by
  have hcompleted : ∃ s₁ : State A C I T, RowsOk config s₁ ∧
      (s₁.last (config.identity i) ≠ some .stop ∧ s₁.last (config.identity i) ≠ some .delete) ∧
        s₁ = { s with last := if operation = .start then
          Function.update s.last (config.identity i) (some .start) else s.last } := by
    by_cases heq : operation = .start
    · refine ⟨s.complete (config.identity i) .start, h.complete ⟨(by simp), (by simp)⟩, ?_, ?_⟩
      · simp [State.complete]
      · rw [if_pos heq]
        rfl
    · exact ⟨s, h, hlast heq, by rw [if_neg heq]⟩
  obtain ⟨s₁, hok, hlast, rfl⟩ := hcompleted
  rw [start_eq haddress]
  have hrow := (hok.runs (i := i) hlast).updateCommunityState (a := a) (some ⟨true, false⟩)
    fun c hc => by
      cases hfiles.symm.trans hc
      exact hlast.1
  have hgoes := hrow.goesPlain (t := t) none (by simp)
  exact { hgoes with }

omit [DecidableEq I] in
/-- The operation that ends a community completes. -/
theorem RowsOk.remove {deletes : Bool} (h : RowsOk config s)
    (hstopped : s.started (config.identity i) = none)
    (hsettled : s.Settled config (config.identity i)) (howns : s.Owns a (config.identity i))
    (honly : deletes = false → ∀ b, s.files b = some (config.identity i) → b = a)
    (hdeleted : deletes = true → ∀ b, s.files b ≠ some (config.identity i)) :
    RowsOk config (s.remove config t deletes a i) := by
  have hgoes : RowsOk config ((s.deleteEntry a).setHandler t none) :=
    { h.goesPlain (t := t) none nofun with }
  have hended : ∀ {c}, s.last c = some .stop ∨ s.last c = some .delete ∨ c = config.identity i →
      s.started c = none ∧ State.Settled ((s.deleteEntry a).setHandler t none) config c := by
    intro c hc
    by_cases heq : c = config.identity i
    · subst heq
      refine ⟨hstopped, fun j hj hrenaming => hsettled j hj ?_⟩
      obtain ⟨t', handler, hhandler, hrenames⟩ := hrenaming
      exact ⟨t', handler, (handlers_setHandler_none.1 hhandler).2, hrenames⟩
    · exact hgoes.ended c (hc.imp id fun hc => hc.resolve_right heq)
  rw [State.remove]
  dsimp only
  split
  · rename_i hdeletes
    refine ⟨fun c hc => ?_, fun c b hc hb => ?_, fun c b hc => ?_⟩
    · by_cases heq : c = config.identity i
      · exact hended (Or.inr (Or.inr heq))
      · simp only [State.complete, Function.update_of_ne heq] at hc
        exact hended (hc.imp id Or.inl)
    · have heq : c ≠ config.identity i := by
        rintro rfl
        cases (Function.update_self ..).symm.trans hc
      simp only [State.complete, Function.update_of_ne heq] at hc
      have hne : b ≠ a := by
        rintro rfl
        exact heq (howns c hb)
      obtain ⟨row, hrow, hexplicit⟩ := h.stopped c b hc hb
      exact ⟨row, (Function.update_of_ne hne _ _).trans hrow, hexplicit⟩
    · by_cases heq : c = config.identity i
      · subst heq
        exact hdeleted hdeletes b
      · simp only [State.complete, Function.update_of_ne heq] at hc
        exact h.deleted c b hc
  · rename_i hdeletes
    refine ⟨fun c hc => ?_, fun c b hc hb => ?_, fun c b hc => ?_⟩
    · by_cases heq : c = config.identity i
      · exact hended (Or.inr (Or.inr heq))
      · simp only [State.complete, Function.update_of_ne heq] at hc
        exact hended (hc.imp id Or.inl)
    · by_cases heq : c = config.identity i
      · subst heq
        obtain rfl := honly (Bool.of_not_eq_true hdeletes) b hb
        exact ⟨_, Function.update_self .., rfl⟩
      · simp only [State.complete, Function.update_of_ne heq] at hc
        have hne : b ≠ a := by
          rintro rfl
          exact heq (howns c hb)
        obtain ⟨row, hrow, hexplicit⟩ := h.stopped c b hc hb
        exact ⟨row, (Function.update_of_ne hne _ _).trans hrow, hexplicit⟩
    · have heq : c ≠ config.identity i := by
        rintro rfl
        cases (Function.update_self ..).symm.trans hc
      simp only [State.complete, Function.update_of_ne heq] at hc
      exact h.deleted c b hc

theorem RowsOk.restartedEdit {edit : Edit A I} {j : I} {b : A} (h : RowsOk config s)
    (hok : Ok config s) (hhandler : s.handlers t = some (.restarting edit j))
    (haddress : s.address j = some b) (hb : s.entry b = none ∨ s.entry b = some (.community j))
    (hown : ∀ a, s.entry a = some (.community j) →
      s.Owns a (config.identity j) ∧ s.Owns b (config.identity j))
    (hunfiled : edit.community ≠ j → ∀ a, s.entry a ≠ some (.community edit.community))
    (howns : edit.isStarted = false → s.Owns edit.address (config.identity edit.community) ∧
      s.Owns b (config.identity edit.community)) :
    RowsOk config ((((s.setStarted (config.identity j) (some j)).fileUnderItsAddress j).setAddress
      edit.community (some b)).endEdit config t edit) := by
  have hlast := h.last_of_renaming ⟨t, _, hhandler, rfl⟩
  obtain ⟨-, honly⟩ := hok.restarted hhandler haddress hb
  have hruns : RowsOk config (s.setStarted (config.identity j) (some j)) := h.runs hlast
  have hfiled : RowsOk config ((s.setStarted (config.identity j) (some j)).fileUnderItsAddress j) := by
    refine hruns.fileUnderItsAddress haddress fun a ha c hc => ?_
    obtain rfl : c = config.identity j := hc.elim ((hown a ha).1 c) ((hown a ha).2 c)
    exact hlast.1
  have hfiles : ((s.setStarted (config.identity j) (some j)).fileUnderItsAddress j).files =
      s.files := by
    obtain ⟨entries, rows, heq⟩ := fileUnderItsAddress_eq haddress
    rw [fileUnderItsAddress_setStarted, heq]
    rfl
  have hentry : ∀ a, ((s.setStarted (config.identity j) (some j)).fileUnderItsAddress j).entry a =
      (s.fileUnderItsAddress j).entry a := by
    rw [fileUnderItsAddress_setStarted]
    exact fun a => rfl
  refine RowsOk.endEdit ?_ fun b' hb' hne => ⟨fun _ a ha => ?_, fun hstarted => ?_⟩
  · exact { hfiled.complete (c := config.identity edit.community)
      (show Operation.edit ≠ .stop ∧ Operation.edit ≠ .delete from ⟨nofun, nofun⟩) with }
  · cases (Function.update_self ..).symm.trans hb'
    have ha : (s.fileUnderItsAddress j).entry a = some (.community edit.community) :=
      (hentry a).symm.trans ha
    by_cases heq : edit.community = j
    · exact honly a (heq ▸ ha)
    · exact absurd (entry_fileUnderItsAddress haddress ha) fun hor => hor.elim heq (hunfiled heq a)
  · cases (Function.update_self ..).symm.trans hb'
    obtain ⟨hold, hnew⟩ := howns hstarted
    refine ⟨fun c hc => hold c ?_, fun c hc => hnew c ?_⟩
    · exact (congrFun hfiles _).symm.trans hc
    · exact (congrFun hfiles _).symm.trans hc

theorem rowsOk_step (s : State A C I T) (event : Event A I T) (s' : State A C I T)
    (h : RowsOk config s) (hok : Ok config s) (hsound : Sound config s event)
    (hstep : step config s event = some s') : RowsOk config s' := by
  have hbare : ∀ {s : State A C I T} {t : T} (new : Handler A I), RowsOk config s →
      (∀ i, ¬ new.Renames i) → RowsOk config (s.setHandler t (some new)) := by
    refine fun {s t} new h hnot => h.setHandler fun handler j heq hj => ?_
    cases heq
    exact absurd hj (hnot j)
  have hends : ∀ {s : State A C I T} {t : T}, RowsOk config s → RowsOk config (s.setHandler t none) :=
    fun h => h.setHandler (by simp)
  cases event with
  | boot t a =>
    simp only [step] at hstep
    split at hstep <;> cases hstep
    exact hbare _ h fun _ => id
  | filter t =>
    simp only [step] at hstep
    split at hstep
    · split at hstep
      · rename_i hfiles
        cases hstep
        refine hends (h.updateCommunityState _ fun c hc => ?_)
        cases hfiles.symm.trans hc
      · split at hstep <;> cases hstep
        · exact hends h
        · exact hbare _ h fun _ => id
    · cases hstep
  | internalStartCommunity t =>
    simp only [step] at hstep
    split at hstep <;> cases hstep
    exact { hbare (t := t) (.creating .autoStart _) h fun _ => id with }
  | startedCommunitySubscribe t a =>
    simp only [step] at hstep
    split at hstep
    · cases hstep
    · split at hstep <;> cases hstep
      · exact h
      · exact hbare _ h fun _ => id
  | startCommunity t a =>
    simp only [step] at hstep
    split at hstep
    · cases hstep
    · split at hstep <;> cases hstep
      · exact hbare _ h fun _ => id
      · exact hbare _ h fun _ => id
  | checkStarted t =>
    simp only [step] at hstep
    split at hstep
    · split at hstep <;> cases hstep
      · exact hbare _ h fun _ => id
      · exact { hbare (t := t) (.creating .start _) h fun _ => id with }
    · cases hstep
  | stopCommunity t a =>
    simp only [step] at hstep
    split at hstep <;> cases hstep
    exact hbare _ h fun _ => id
  | editCommunity t a =>
    simp only [step] at hstep
    split at hstep
    · cases hstep
    · split at hstep <;> cases hstep
      · exact hbare _ h fun _ => id
      · exact hbare _ h fun _ => id
  | deleteCommunity t a =>
    simp only [step] at hstep
    split at hstep
    · cases hstep
    · split at hstep <;> cases hstep
      · exact hbare _ h fun _ => id
      · exact hbare _ h fun _ => id
  | polled t =>
    simp only [step] at hstep
    split at hstep
    · split at hstep <;> cases hstep
      · exact hbare _ h fun _ => id
      · exact hbare _ h fun _ => id
      · exact hbare _ h fun _ => id
      · exact (hends h).complete ⟨(by simp), (by simp)⟩
      · exact hbare _ h fun _ => id
      · exact hends h
    · cases hstep
  | created t i =>
    simp only [step] at hstep
    split at hstep
    · split at hstep
      · cases hstep
      · have haddressed : ∀ {a}, RowsOk config (s.setAddress i a) := { h with }
        split at hstep <;> cases hstep
        · exact hbare _ haddressed fun _ => id
        · exact hbare _ haddressed fun _ => id
        · exact hbare _ haddressed fun _ => id
    · cases hstep
  | createRejected t retries =>
    simp only [step] at hstep
    split at hstep
    · split at hstep <;> cases hstep
      · exact hends h
      · exact hends h
      · rw [State.failStart]
        split
        · exact { hbare (t := t) (.queued _) h fun _ => id with }
        · exact { hends (t := t) h with }
    · cases hstep
  | started t =>
    simp only [step] at hstep
    split at hstep
    · rename_i operation a i hhandler
      obtain ⟨hfiles, -, hlast⟩ := hsound operation a i hhandler
      split at hstep <;> cases hstep
      exact h.start (hok.awaiting t operation a i hhandler).1 hfiles hlast
    · cases hstep
  | startRejected t retries =>
    simp only [step] at hstep
    split at hstep <;> cases hstep
    rw [State.failStart]
    split
    · exact { hbare (t := t) (.queued _) h fun _ => id with }
    · exact { hends (t := t) h with }
  | stopped t resolves =>
    simp only [step] at hstep
    split at hstep <;> cases hstep
    have hstopped : ∀ {c i},
        RowsOk config (if s.started c = some i then s.setStarted c none else s) := by
      intro c i
      split
      · exact h.stops
      · exact h
    cases resolves with
    | true => exact hbare _ hstopped fun _ => id
    | false => exact hends hstopped
  | deleted t resolves =>
    simp only [step] at hstep
    split at hstep
    · split at hstep <;> cases hstep
      · refine hbare _ (RowsOk.mk h.stops.ended (fun c b hc hb => ?_) fun c b hc hb => ?_) fun _ => id
        · dsimp only at hb
          split at hb
          · cases hb
          · exact h.stopped c b hc hb
        · dsimp only at hb
          split at hb
          · cases hb
          · exact h.deleted c b hc hb
      · exact hends h.stops
    · cases hstep
  | removed t =>
    simp only [step] at hstep
    split at hstep
    · rename_i deletes a i hhandler
      obtain ⟨hstopped, hsettled, howns, honly, -⟩ := hsound deletes a i hhandler
      cases hstep
      have hfollowed : RowsOk config { s with followed := Function.update s.followed i false } :=
        { h with }
      refine hfollowed.remove hstopped hsettled howns honly ?_
      rintro rfl
      exact hok.removing t a i hhandler
    · cases hstep
  | beginEdit t newAddress =>
    simp only [step] at hstep
    split at hstep
    · rename_i edit hhandler
      have hend := hsound edit hhandler
      split at hstep <;> cases hstep <;> rename_i hstarted
      · rw [hstarted] at hend
        exact RowsOk.endEdit (h.complete ⟨(by simp), (by simp)⟩) hend
      · rename_i j
        rw [hstarted] at hend
        have haddressed : RowsOk config (s.setAddress edit.community (s.address j)) := { h with }
        refine RowsOk.endEdit (haddressed.complete ⟨(by simp), (by simp)⟩) fun b hb => ?_
        exact hend.2 b (by simpa [State.setAddress] using hb)
      · exact hbare _ h fun _ => id
      · rename_i j
        refine h.setHandler fun handler j' heq hj' => Or.inr ?_
        cases heq
        obtain rfl : j = j' := hj'
        rw [hok.identity _ j hstarted, hstarted]
        exact Option.some_ne_none j
    · cases hstep
  | editRejected t =>
    simp only [step] at hstep
    split at hstep <;> cases hstep
    exact hends h
  | storedEdited t resolves =>
    simp only [step] at hstep
    split at hstep
    · rename_i edit newAddress hhandler
      split at hstep
      · cases hstep
        exact hends h
      · rename_i hresolves
        obtain ⟨haddress, hunfiled⟩ :=
          hsound (Bool.of_not_eq_false hresolves) edit newAddress hhandler
        rw [haddress] at hstep
        dsimp only at hstep
        split at hstep
        · rename_i hcan
          cases hstep
          obtain ⟨a, ha, hfiles, hnone⟩ := hcan
          cases haddress.symm.trans ha
          have hcompleted : RowsOk config
              (s.complete (config.identity edit.community) .edit) :=
              h.complete ⟨(by simp), (by simp)⟩
          have hmoved := hcompleted.moveFile (a := edit.address) (b := newAddress) fun c hc => by
            cases hfiles.symm.trans hc
            simp [State.complete]
          refine RowsOk.endEdit { hmoved with } fun b hb hne => ⟨fun _ a ha => ?_, fun _ => ?_⟩
          · exact absurd ha (hunfiled a)
          · cases (Function.update_self ..).symm.trans hb
            constructor
            · intro c hc
              cases (Function.update_self ..).symm.trans hc
            · intro c hc
              have hc : s.files edit.address = some c := by
                rw [← hc]
                simp [State.setAddress, State.moveFile, hne]
              exact Option.some.inj (hc.symm.trans hfiles)
        · cases hstep
    · cases hstep
  | renameStopped t resolves =>
    obtain rfl : resolves = true := hsound
    simp only [step, if_true] at hstep
    split at hstep
    · rename_i edit j newAddress hhandler
      cases hstep
      have hrenaming : ∀ {handler : Handler A I} {j'}, some (.moving edit j newAddress) = some handler →
          handler.Renames j' → s.Renaming j' := by
        rintro handler j' ⟨⟩ rfl
        exact ⟨t, _, hhandler, rfl⟩
      split
      · exact h.stops.setHandler fun handler j' heq hj' => Or.inl (hrenaming heq hj')
      · exact h.setHandler fun handler j' heq hj' => Or.inl (hrenaming heq hj')
    · cases hstep
  | moved t resolves =>
    simp only [step] at hstep
    split at hstep
    · rename_i edit j newAddress hhandler
      have hrenaming : s.Renaming j := ⟨t, _, hhandler, rfl⟩
      split at hstep
      · cases hstep
        refine h.setHandler fun handler j' heq hj' => Or.inl ?_
        cases heq
        exact hj' ▸ hrenaming
      · split at hstep
        · cases hstep
        · rename_i a ha
          split at hstep
          · rename_i hcan
            cases hstep
            obtain ⟨a', ha', hfiles, -⟩ := hcan
            cases ha.symm.trans ha'
            have hmoved : RowsOk config (s.moveFile a newAddress) := h.moveFile fun c hc => by
              cases hfiles.symm.trans hc
              exact h.last_of_renaming hrenaming
            have haddressed : RowsOk config ((s.moveFile a newAddress).setAddress j
              (some newAddress)) := { hmoved with }
            refine haddressed.setHandler fun handler j' heq hj' => Or.inl ?_
            cases heq
            obtain rfl : j = j' := hj'
            exact hrenaming
          · cases hstep
    · cases hstep
  | restarted t resolves =>
    obtain ⟨rfl, hrestart⟩ := hsound
    simp only [step] at hstep
    split at hstep
    · rename_i edit j hhandler
      obtain ⟨b, hb⟩ := Option.ne_none_iff_exists'.1 (hok.mentioned hhandler (Or.inr rfl))
      obtain ⟨hentry, hown, hunfiled, howns⟩ := hrestart edit j b hhandler hb
      have hf : (s.setStarted (config.identity j) (some j)).followed j = true :=
        (hok.renames t _ j hhandler rfl).1
      rw [if_neg (by simp)] at hstep
      split at hstep
      · cases hstep
      · have haddress : ((s.setStarted (config.identity j) (some j)).fileUnderItsAddress j).address j =
            some b := by
          obtain ⟨entries, rows, heq⟩ := fileUnderItsAddress_eq hb
          rw [fileUnderItsAddress_setStarted, heq]
          exact hb
        rw [haddress] at hstep
        cases hstep
        exact h.restartedEdit hok hhandler hb hentry hown hunfiled howns
    · rename_i j hhandler
      rw [if_neg (by simp)] at hstep
      split at hstep <;> cases hstep
      exact hends (h.runs (h.last_of_renaming ⟨t, _, hhandler, rfl⟩))
    · cases hstep

end Rows

/-! ## No handler in flight -/

section Idle

variable {A C I T : Type} [DecidableEq A] {config : Config C I} {s s' : State A C I T}
  {rows : A → Option RpcCommunityState} {files : A → Option C}

/-- What holds when no handler is in flight. -/
structure Agrees (config : Config C I) (s : State A C I T) : Prop where
  entries : ∀ a entry, s.entry a = some entry ↔
    ∃ i, entry = .community i ∧ s.Running config i ∧ s.address i = some a
  stopped : ∀ c, s.last c = some .stop → s.started c = none ∧
    ∀ a, s.files a = some c → ∃ row, s.communityStates a = some row ∧ row.wasExplicitlyStopped = true
  deleted : ∀ c, s.last c = some .delete → s.started c = none ∧ ∀ a, s.files a ≠ some c

theorem Ok.agrees (h : Ok config s) (hrows : RowsOk config s) (hidle : ∀ t, s.handlers t = none) :
    Agrees config s where
  entries a entry := by
    have hno : ∀ {t handler}, s.handlers t ≠ some handler := fun hhandler => by
      cases (hidle _).symm.trans hhandler
    constructor
    · intro ha
      cases entry with
      | pending =>
        obtain ⟨t, handler, hhandler, -⟩ := h.pending a ha
        exact absurd hhandler hno
      | community i =>
        rcases h.filed a i ha with hrunning | ⟨t, deletes, j, hhandler⟩ | ⟨t, handler, hhandler, -⟩
        · exact ⟨i, rfl, hrunning⟩
        · exact absurd hhandler hno
        · exact absurd hhandler hno
    · rintro ⟨i, rfl, hrunning, haddress⟩
      obtain ⟨b, hb, hfiled, -⟩ := h.running i hrunning
      cases haddress.symm.trans hb
      exact hfiled
  stopped c hc := ⟨(hrows.ended c (Or.inl hc)).1, fun a => hrows.stopped c a hc⟩
  deleted c hc := ⟨(hrows.ended c (Or.inr hc)).1, fun a => hrows.deleted c a hc⟩

/-- The handler whose turn it is. -/
def Event.handler : Event A I T → T
  | .boot t _ | .filter t | .internalStartCommunity t | .startedCommunitySubscribe t _
  | .startCommunity t _ | .checkStarted t | .stopCommunity t _ | .editCommunity t _
  | .deleteCommunity t _ | .polled t | .created t _ | .createRejected t _ | .started t
  | .startRejected t _ | .stopped t _ | .deleted t _ | .removed t | .beginEdit t _ | .editRejected t
  | .storedEdited t _ | .renameStopped t _ | .moved t _ | .restarted t _ => t

/-- The handler is the auto-start of a community. -/
def Handler.AutoStarts (handler : Handler A I) : Prop :=
  match handler with
  | .readRow _ | .queued _ | .creating .autoStart _ | .awaitingStart .autoStart _ _ => True
  | _ => False

variable [DecidableEq C] [DecidableEq I] [DecidableEq T]

omit [DecidableEq A] [DecidableEq C] [DecidableEq I] [DecidableEq T] in
theorem Handler.AutoStarts.cases {handler : Handler A I} (h : handler.AutoStarts) :
    (∃ a, handler = .readRow a) ∨ (∃ a, handler = .queued a) ∨
      (∃ a, handler = .creating .autoStart a) ∨ ∃ a i, handler = .awaitingStart .autoStart a i := by
  cases handler with
  | readRow a => exact Or.inl ⟨a, rfl⟩
  | queued a => exact Or.inr (Or.inl ⟨a, rfl⟩)
  | creating operation a =>
    cases operation with
    | autoStart => exact Or.inr (Or.inr (Or.inl ⟨a, rfl⟩))
    | _ => exact h.elim
  | awaitingStart operation a i =>
    cases operation with
    | autoStart => exact Or.inr (Or.inr (Or.inr ⟨a, i, rfl⟩))
    | _ => exact h.elim
  | _ => exact h.elim

/-- An auto-start keeps every entry but its own "pending". -/
theorem entry_of_autoStart {event : Event A I T} {handler : Handler A I} {a : A} {entry : Entry I}
    (h : Ok config s) (hhandler : s.handlers event.handler = some handler)
    (hauto : handler.AutoStarts) (hsound : Sound config s event)
    (hstep : step config s event = some s') (ha : s.entry a = some entry)
    (hnot : ¬ handler.Starts a) : s'.entry a = some entry := by
  rcases hauto.cases with ⟨b, rfl⟩ | ⟨b, rfl⟩ | ⟨b, rfl⟩ | ⟨b, i, rfl⟩
  · cases event <;> simp only [Event.handler] at hhandler <;>
      simp [step, hhandler] at hstep
    split at hstep
    · cases hstep
      exact ha
    · split at hstep <;> cases hstep <;> exact ha
  · cases event <;> simp only [Event.handler] at hhandler <;>
      simp [step, hhandler] at hstep
    subst hstep
    have hne : a ≠ b := by
      rintro rfl
      cases (hsound _ hhandler).symm.trans ha
    exact (entry_setEntry.trans (if_neg hne)).trans ha
  · have hne : a ≠ b := fun heq => hnot ⟨heq.symm, nofun, nofun⟩
    cases event <;> simp only [Event.handler] at hhandler <;>
      simp [step, hhandler] at hstep
    · obtain ⟨-, rfl⟩ := hstep
      exact ha
    · subst hstep
      exact (entry_deleteEntry.trans (if_neg hne)).trans ha
  · have hne : a ≠ b := fun heq => hnot heq.symm
    have haddress := (h.awaiting _ _ _ _ hhandler).1
    cases event <;> simp only [Event.handler] at hhandler <;>
      simp [step, hhandler] at hstep
    · obtain ⟨-, rfl⟩ := hstep
      rw [start_eq haddress]
      exact (Dictionary.get_set.trans (if_neg hne)).trans ha
    · subst hstep
      exact (entry_deleteEntry.trans (if_neg hne)).trans ha

/-- **The registry agrees with what runs**: when no handler is in flight, the entries are the
running communities under their addresses, and what a client stopped or deleted last does not run
and is not to be started.  A start joins running communities only, an auto-start keeps the entries
of others, and a delete removes the row. -/
theorem registry_agrees {events : List (Event A I T)}
    (hrun : Run (step config) (Sound config)
      ({ communityStates := rows, files := files } : State A C I T) events s) :
    ((∀ t, s.handlers t = none) → Agrees config s) ∧
      (∀ t a i, s.handlers t = some (.polling .start a) → s.entry a = some (.community i) →
        Sound config s (.polled t) → s.Running config i) ∧
      (∀ event handler s', s.handlers event.handler = some handler → handler.AutoStarts →
        Sound config s event → step config s event = some s' →
          ∀ a entry, s.entry a = some entry → ¬ handler.Starts a → s'.entry a = some entry) ∧
      ∀ t a i s', s.handlers t = some (.removing true a i) →
        step config s (.removed t) = some s' → s'.communityStates a = none := by
  obtain ⟨hok, hrows⟩ : Ok config s ∧ RowsOk config s :=
    hrun.invariant (I := fun s => Ok config s ∧ RowsOk config s)
      (fun s event s' h hsound hstep =>
        ⟨ok_step s event s' h.1 hsound hstep, rowsOk_step s event s' h.2 h.1 hsound hstep⟩)
      ⟨ok_initial, rowsOk_initial⟩
  refine ⟨hok.agrees hrows, fun t a i hhandler ha hsound => ?_, fun event handler s' hhandler hauto
    hsound hstep a entry ha hnot => entry_of_autoStart hok hhandler hauto hsound hstep ha hnot,
    fun t a i s' hhandler hstep => ?_⟩
  · have hstops := hsound a i hhandler ha
    rcases hok.filed a i ha with ⟨hrunning, -⟩ | ⟨t', deletes, j, hr⟩ | ⟨t', handler, hr, hi⟩
    · exact hrunning
    · exact absurd (Or.inl rfl) (hstops t' _ hr)
    · refine absurd ?_ (hstops t' handler hr)
      cases handler <;> first | exact hi | exact hi.elim
  · simp only [step, hhandler] at hstep
    cases hstep
    exact Function.update_self ..

/-- One community is stored, and every instance is of it. -/
def oneCommunity : Config Unit Nat := ⟨fun _ => ()⟩

/-- A client joins the auto-start of the community, and stops it when it runs. -/
def joinsAndStops : List (Event Unit Nat Bool) :=
  [.boot false (), .filter false, .internalStartCommunity false, .startCommunity true (),
    .checkStarted true, .created false 0, .started false, .polled true, .stopCommunity true (),
    .polled true, .stopped true true, .removed true]

theorem registry_agrees_joinsAndStops : ∃ s : State Unit Unit Nat Bool,
    Run (step oneCommunity) anyStep
        { communityStates := fun _ => some ⟨true, false⟩, files := fun _ => some () } joinsAndStops s ∧
      s.last () = some .stop ∧ Agrees oneCommunity s := by
  obtain ⟨s, hrun, hidle, hlast⟩ : ∃ s : State Unit Unit Nat Bool,
      Run (step oneCommunity) (Sound oneCommunity)
        { communityStates := fun _ => some ⟨true, false⟩, files := fun _ => some () } joinsAndStops s ∧
          (∀ t, s.handlers t = none) ∧ s.last () = some .stop := by
    refine ⟨_, .cons trivial rfl <| .cons trivial rfl <| .cons ?_ rfl <| .cons trivial rfl <|
      .cons trivial rfl <| .cons trivial rfl <| .cons ?_ rfl <| .cons ?_ rfl <| .cons trivial rfl <|
      .cons ?_ rfl <| .cons ?_ rfl <| .cons ?_ rfl (.nil _), fun t => by cases t <;> rfl, rfl⟩
    · rintro a ⟨⟩
      rfl
    · rintro operation a i ⟨⟩
      refine ⟨rfl, ?_, fun _ => ⟨nofun, nofun⟩⟩
      rintro j - ⟨t, handler, hhandler, hrenames⟩
      cases t <;> cases hhandler <;> exact hrenames
    · -- the client is told that the community runs
      rintro a i ⟨⟩ - t handler hhandler
      cases t <;> cases hhandler
      exact id
    · rintro a i ⟨⟩
    · rintro a i ⟨⟩ -
      exact ⟨rfl, rfl⟩
    · rintro deletes a i ⟨⟩
      have hnot : ∀ {s : State Unit Unit Nat Bool} {j}, s.handlers false = none →
          s.handlers true = some (.removing false () 0) → ¬ s.Renaming j := by
        rintro s j hfalse htrue ⟨t, handler, hhandler, hrenames⟩
        cases t
        · cases hfalse.symm.trans hhandler
        · cases htrue.symm.trans hhandler
          exact hrenames
      refine ⟨rfl, fun j _ => hnot rfl rfl, fun _ _ => rfl, fun _ _ _ => rfl, ?_⟩
      rintro entry ⟨⟩
      exact ⟨0, rfl, nofun, hnot rfl rfl⟩
  exact ⟨s, hrun.mono fun _ _ _ => trivial, hlast, (registry_agrees hrun).1 hidle⟩

/-- The auto-start of a community waits for its turn while a client starts it. -/
def startsMeanwhile : List (Event Unit Nat Bool) :=
  [.boot false (), .filter false, .startCommunity true (), .checkStarted true, .created true 0,
    .started true, .internalStartCommunity false, .created false 1, .startRejected false false]

theorem not_registry_agrees : ∃ s : State Unit Unit Nat Bool,
    Run (step oneCommunity) anyStep
      { communityStates := fun _ => some ⟨true, false⟩, files := fun _ => some () }
      startsMeanwhile s ∧ (∀ t, s.handlers t = none) ∧ s.Running oneCommunity 0 ∧
        ¬ Agrees oneCommunity s := by
  refine ⟨_, .cons trivial rfl <| .cons trivial rfl <| .cons trivial rfl <| .cons trivial rfl <|
    .cons trivial rfl <| .cons trivial rfl <| .cons trivial rfl <| .cons trivial rfl <|
    .cons trivial rfl (.nil _), fun t => by cases t <;> rfl, rfl, fun h => ?_⟩
  cases (h.entries () (.community 0)).2 ⟨0, rfl, rfl, rfl⟩

end Idle

end StartedCommunities
end Rpc
end Pkc
